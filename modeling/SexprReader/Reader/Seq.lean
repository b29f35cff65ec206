import SexprReader.Reader.Basic

/-!
# Sequences

The body of a list is read as one `Seq`.  A flat sequence has all expressions of the body as its
children and ends before a `)` (`flatSeq`).  A chained one takes a single expression, then a
sequence for what follows it unless the next node ends sequences, and one more sequence if the
nested one stopped before a `(` (`chainSeq`).

A long body makes a long chain, so the sequences that wait for a nested one to be finished are kept
in a list, the innermost first (`Pending`).  `settle` decides what a next node means for them.
-/

namespace SexprReader

/-- The node ends the sequence before it: it is a literal, or its text is `)`. -/
def Node.endsSeq (node : Node) : Bool := node.category = .literal || node.text = ")"

/-- A sequence that is not finished. -/
inductive Pending where
  /-- It has its expression and waits for the nested sequence. -/
  | awaitsNested (head : Node)
  /-- It has its expression and its nested sequence, and waits for one more. -/
  | awaitsExtra (head nested : Node)

namespace Reader

variable {ε : Type}

/-! ### Chained sequences -/

section Chained

variable [Faults ε]

/-- Hands a finished sequence to the waiting ones.  Each is finished by it, except that one which
gets its nested sequence before a `(` waits for one more.  Gives the outermost sequence if all are
finished, and else those that still wait. -/
def finish (atOpen : Bool) (done : Node) : List Pending → Node ⊕ List Pending
  | [] => .inl done
  | .awaitsNested head :: outer =>
    if atOpen then .inr (.awaitsExtra head done :: outer)
    else finish atOpen (.tree .seq [head, done]) outer
  | .awaitsExtra head nested :: outer => finish atOpen (.tree .seq [head, nested, done]) outer

/-- What a sequence with the expression `head` becomes before the node `next`: it is finished if the
node ends sequences, and else waits for a nested one. -/
def settle (next head : Node) (outer : List Pending) : Node ⊕ List Pending :=
  if next.endsSeq then finish (next.isLiteral "(") (.tree .seq [head]) outer
  else .inr (.awaitsNested head :: outer)

/-- Reads on behind the first expression `head` of a sequence inside the sequences `outer`. -/
def chainFrom (item : ItemOf ε) (head : Node) (outer : List Pending) : ReaderOf ε Node := fun cursor =>
  match cursor.rest with
  | [] => .error (Faults.grammar .unexpectedEnd) cursor
  | next :: _ =>
    match settle next head outer with
    | .inl done => .ok done cursor
    | .inr outer =>
      match _h : item.read cursor with
      | .error fault cursor => .error fault cursor
      | .ok head cursor => chainFrom item head outer cursor
termination_by cursor => cursor.rest.length
decreasing_by exact item.consumes _h

theorem chainFrom_of_nil (item : ItemOf ε) (head : Node) (outer : List Pending) {cursor : Cursor}
    (h : cursor.rest = []) :
    chainFrom item head outer cursor = .error (Faults.grammar .unexpectedEnd) cursor := by
  rw [chainFrom, h]

theorem chainFrom_of_inl (item : ItemOf ε) {head next done : Node} {outer : List Pending}
    {cursor : Cursor} {rest : List Node} (h : cursor.rest = next :: rest)
    (hs : settle next head outer = .inl done) :
    chainFrom item head outer cursor = .ok done cursor := by
  rw [chainFrom, h]
  simp only [hs]

theorem chainFrom_of_inr (item : ItemOf ε) {head next : Node} {outer outer' : List Pending}
    {cursor : Cursor} {rest : List Node} (h : cursor.rest = next :: rest)
    (hs : settle next head outer = .inr outer') :
    chainFrom item head outer cursor =
      (item.read >>= fun head => chainFrom item head outer') cursor := by
  rw [chainFrom, h]
  simp only [hs, bind, EStateM.bind]
  split <;> simp_all

/-- Reads a chained sequence. -/
def chainSeq (item : ItemOf ε) : ReaderOf ε Node := do
  let head ← item.read
  chainFrom item head []

theorem neverAdds_chainFrom (item : ItemOf ε) (head : Node) (outer : List Pending) :
    NeverAdds (chainFrom item head outer) := by
  intro cursor node cursor' h
  fun_induction chainFrom item head outer cursor with
  | case1 => cases h
  | case2 => cases h; exact Nat.le_refl _
  | case3 => cases h
  | case4 head outer cursor next rest _ outer' _ head' cursor'' hr ih =>
    exact Nat.le_trans (ih h) (Nat.le_of_lt (item.consumes hr))

theorem consumes_chainSeq (item : ItemOf ε) : Consumes (chainSeq item) :=
  item.consumes.bind fun _ => neverAdds_chainFrom _ _ _

end Chained

/-! ### Flat sequences -/

/-- Reads expressions behind `found` (the last one first) until a `)` comes.  At the end of the
nodes the next expression is missing. -/
def flatFrom (item : ItemOf ε) (found : List Node) : ReaderOf ε Node := fun cursor =>
  if cursor.atClose then .ok (.tree .seq found.reverse) cursor
  else
    match _h : item.read cursor with
    | .error fault cursor => .error fault cursor
    | .ok node cursor => flatFrom item (node :: found) cursor
termination_by cursor => cursor.rest.length
decreasing_by exact item.consumes _h

theorem flatFrom_of_atClose (item : ItemOf ε) (found : List Node) {cursor : Cursor}
    (h : cursor.atClose = true) :
    flatFrom item found cursor = .ok (.tree .seq found.reverse) cursor := by
  rw [flatFrom, if_pos h]

theorem flatFrom_of_not_atClose (item : ItemOf ε) (found : List Node) {cursor : Cursor}
    (h : cursor.atClose = false) :
    flatFrom item found cursor =
      (item.read >>= fun node => flatFrom item (node :: found)) cursor := by
  rw [flatFrom, if_neg (by simp [h])]
  simp only [bind, EStateM.bind]
  split <;> simp_all

/-- Reads a flat sequence. -/
def flatSeq (item : ItemOf ε) : ReaderOf ε Node := do
  let head ← item.read
  flatFrom item [head]

theorem neverAdds_flatFrom (item : ItemOf ε) (found : List Node) :
    NeverAdds (flatFrom item found) := by
  intro cursor node cursor' h
  fun_induction flatFrom item found cursor with
  | case1 => cases h; exact Nat.le_refl _
  | case2 => cases h
  | case3 found cursor _ node' cursor'' hr ih =>
    exact Nat.le_trans (ih h) (Nat.le_of_lt (item.consumes hr))

theorem consumes_flatSeq (item : ItemOf ε) : Consumes (flatSeq item) :=
  item.consumes.bind fun _ => neverAdds_flatFrom _ _

/-! ### Either kind -/

variable [Faults ε]

/-- Reads a sequence of the kind that the settings ask for. -/
def seq (settings : Settings) (item : ItemOf ε) : ReaderOf ε Node :=
  if settings.flat then flatSeq item else chainSeq item

theorem consumes_seq (settings : Settings) (item : ItemOf ε) : Consumes (seq settings item) := by
  unfold seq
  split
  · exact consumes_flatSeq item
  · exact consumes_chainSeq item

end Reader

end SexprReader
