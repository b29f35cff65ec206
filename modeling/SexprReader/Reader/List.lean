import SexprReader.Reader.Seq

/-!
# Lists and programs

An expression is an atom or a list.  A list is a `(`, a sequence, and a node that ends it; with flat
sequences the sequence may be missing before a `)`.  A program is any number of expressions up to the
end of the nodes.

The depth of the cursor counts open lists.  `nested` raises it, compares it with the limit of the
settings, and lowers it again however the list ends; where the comparison itself stops the reader,
the depth stays raised.

The expressions of a list are read by calls inside of the call that reads the list, and the stack of
calls is bounded (`CallStack`).  `listWithin room` reads a list while there is room for the expressions
in `room` more lists; beyond that an expression overflows the stack, whatever comes next
(`starved`), but a list without expressions is still read.
-/

namespace SexprReader

/-- How much the stack of calls holds where reading starts.  An expression takes a few frames more than
the list around it.  How many there are, and how many are taken, is up to the caller, to the settings
and to what runs the program, so everything that reads expressions is over any such stack. -/
class CallStack where
  /-- An expression inside of more lists than that overflows the stack. -/
  room : Nat
  /-- Where an expression would overflow the stack, the end of the nodes is still noticed: that takes
  fewer frames. -/
  noticesEnd : Bool

/-- Of a thousand frames the caller and the innermost expression take forty odd, and each list around
it takes four at most. -/
instance CallStack.usual : CallStack where
  room := 239
  noticesEnd := false

namespace Reader

variable {ε α : Type}

section Lists

variable [Faults ε]

/-- Runs a reader one level deeper, unless the limit of the settings forbids it. -/
def nested (settings : Settings) (inner : ReaderOf ε α) : ReaderOf ε α := fun cursor =>
  let cursor := { cursor with depth := cursor.depth + 1 }
  match settings.exceeded cursor.depth with
  | .error cause => .error (Faults.settings cause) cursor
  | .ok true => .error (Faults.grammar .tooDeep) cursor
  | .ok false =>
    match inner cursor with
    | .ok a cursor => .ok a { cursor with depth := cursor.depth - 1 }
    | .error fault cursor => .error fault { cursor with depth := cursor.depth - 1 }

/-- Stops unless the next node is the literal `(`. -/
def expectOpen : ReaderOf ε Unit := do
  if (← peek).isLiteral "(" then return ()
  else fail .expectedOpen

/-- Reads an expression, a list by the given reader. -/
def exprOf (list : ReaderOf ε Node) : ReaderOf ε Node := do
  let child ← if (← peek).isLiteral "(" then list else atom
  return .tree .sexpr [child]

/-- Reads what a list holds: a sequence, or nothing where a flat one is missing. -/
def body (settings : Settings) (item : ItemOf ε) : ReaderOf ε (List Node) := do
  let cursor ← get
  if settings.flat && cursor.atClose then return []
  else return [← seq settings item]

/-- Reads a list of expressions, each by the given reader. -/
def listOf (settings : Settings) (item : ItemOf ε) : ReaderOf ε Node := do
  expectOpen
  nested settings do
    let opener ← advance
    let held ← body settings item
    let closer ← close settings
    return .tree .list (opener :: held ++ [closer])

theorem Consumes.nested {inner : ReaderOf ε α} (settings : Settings) (h : Consumes inner) :
    Consumes (Reader.nested settings inner) := by
  intro cursor a cursor' he
  simp only [Reader.nested] at he
  split at he
  · cases he
  · cases he
  · split at he
    · rename_i hi
      cases he
      have := h hi
      exact this
    · cases he

theorem neverAdds_expectOpen : NeverAdds (expectOpen : ReaderOf ε Unit) := by
  refine neverAdds_peek.bind fun node => ?_
  split
  · exact neverAdds_pure _
  · exact (consumes_fail _).neverAdds

theorem consumes_exprOf {list : ReaderOf ε Node} (h : Consumes list) : Consumes (exprOf list) := by
  refine neverAdds_peek.bind_consumes fun node => ?_
  dsimp only
  split
  · exact h.bind fun _ => neverAdds_pure _
  · exact consumes_atom.bind fun _ => neverAdds_pure _

theorem neverAdds_body (settings : Settings) (item : ItemOf ε) : NeverAdds (body settings item) := by
  refine neverAdds_get.bind fun cursor => ?_
  split
  · exact neverAdds_pure _
  · exact (consumes_seq settings item).neverAdds.bind fun _ => neverAdds_pure _

theorem consumes_listOf (settings : Settings) (item : ItemOf ε) : Consumes (listOf settings item) := by
  refine neverAdds_expectOpen.bind_consumes fun _ => Consumes.nested settings ?_
  refine consumes_advance.bind fun opener => (neverAdds_body settings item).bind fun held => ?_
  exact (consumes_close settings).neverAdds.bind fun _ => neverAdds_pure _

/-! ### Room on the stack of calls -/

variable [CallStack]

/-- Reads an expression for which there is no room on the stack of calls. -/
def starved : ReaderOf ε Node := do
  let cursor ← get
  if CallStack.noticesEnd && cursor.atEnd then fail .unexpectedEnd
  else overflow

theorem consumes_starved : Consumes (starved : ReaderOf ε Node) := by
  refine neverAdds_get.bind_consumes fun cursor => ?_
  split
  · exact consumes_fail _
  · exact consumes_overflow

/-- Reads a list with room for the expressions in `room` more lists. -/
def listWithin (settings : Settings) : Nat → ItemOf ε
  | 0 => ⟨listOf settings ⟨starved, consumes_starved⟩, consumes_listOf _ _⟩
  | room + 1 =>
    let inner := listWithin settings room
    ⟨listOf settings ⟨exprOf inner.read, consumes_exprOf inner.consumes⟩, consumes_listOf _ _⟩

/-- Reads a list. -/
def list (settings : Settings) : ReaderOf ε Node := (listWithin settings CallStack.room).read

/-- Reads an expression. -/
def expr (settings : Settings) : ItemOf ε :=
  ⟨exprOf (list settings), consumes_exprOf (listWithin settings CallStack.room).consumes⟩

end Lists

/-! ### Programs -/

/-- Reads expressions behind `found` (the last one first) up to the end. -/
def programFrom (item : ItemOf ε) (found : List Node) : ReaderOf ε Node := fun cursor =>
  match cursor.rest with
  | [] => .ok (.tree .program found.reverse) cursor
  | _ :: _ =>
    match _h : item.read cursor with
    | .error fault cursor => .error fault cursor
    | .ok node cursor => programFrom item (node :: found) cursor
termination_by cursor => cursor.rest.length
decreasing_by exact item.consumes _h

theorem programFrom_of_nil (item : ItemOf ε) (found : List Node) {cursor : Cursor}
    (h : cursor.rest = []) :
    programFrom item found cursor = .ok (.tree .program found.reverse) cursor := by
  rw [programFrom, h]

theorem programFrom_of_cons (item : ItemOf ε) (found : List Node) {cursor : Cursor} {next : Node}
    {rest : List Node} (h : cursor.rest = next :: rest) :
    programFrom item found cursor =
      (item.read >>= fun node => programFrom item (node :: found)) cursor := by
  rw [programFrom, h]
  simp only [bind, EStateM.bind]
  split <;> simp_all

/-- Reads a program. -/
def program [Faults ε] [CallStack] (settings : Settings) : ReaderOf ε Node :=
  programFrom (expr settings) []

end Reader

end SexprReader
