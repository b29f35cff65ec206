import SexprReader.Node
import SexprReader.Settings

/-!
# Readers

A `Reader` takes nodes from the front of a sequence and either gives a result or stops with a
`ReadFault`.  Its state is a `Cursor`: the nodes that are left and the number of lists that are
open.  A reader that stops leaves the cursor where it stood then.  All readers are defined for any
type of `Faults` (`ReaderOf`), and none looks at a fault that another one stops with.

Readers that repeat another reader end because that one takes at least one node whenever it gives a
result.  `Consumes` says so, `NeverAdds` says that no node is put back, and an `Item` is a reader
of a node with a proof of the former.
-/

namespace SexprReader

/-- What is left to read, and the number of lists that are open. -/
structure Cursor where
  rest : List Node
  depth : Nat := 0
deriving DecidableEq

namespace Cursor

/-- The position in `input`, of which `rest` is what is left. -/
def index (cursor : Cursor) (input : List Node) : Nat := input.length - cursor.rest.length

def atEnd (cursor : Cursor) : Bool := cursor.rest.isEmpty

/-- The next node is the literal `)`; there is none at the end. -/
def atClose (cursor : Cursor) : Bool :=
  match cursor.rest with
  | [] => false
  | node :: _ => node.isLiteral ")"

end Cursor

/-- A computation that takes nodes from the front of a sequence and may stop with a fault. -/
abbrev ReaderOf (ε : Type) := EStateM ε Cursor

/-- A computation that stops with nothing but a fault. -/
abbrev Reader := ReaderOf ReadFault

namespace Reader

variable {ε α β : Type}

/-! ### Progress -/

/-- Whenever the reader gives a result, it has taken a node. -/
def Consumes (reader : ReaderOf ε α) : Prop :=
  ∀ ⦃cursor a cursor'⦄, reader cursor = .ok a cursor' → cursor'.rest.length < cursor.rest.length

/-- Whenever the reader gives a result, there are no more nodes left than before. -/
def NeverAdds (reader : ReaderOf ε α) : Prop :=
  ∀ ⦃cursor a cursor'⦄, reader cursor = .ok a cursor' → cursor'.rest.length ≤ cursor.rest.length

/-- A reader of a node that takes at least one. -/
structure ItemOf (ε : Type) where
  read : ReaderOf ε Node
  consumes : Consumes read

/-- A reader of a node that takes at least one, and stops with nothing but a fault. -/
abbrev Item := ItemOf ReadFault

theorem Consumes.neverAdds {reader : ReaderOf ε α} (h : Consumes reader) : NeverAdds reader :=
  fun _ _ _ he => Nat.le_of_lt (h he)

theorem neverAdds_pure (a : α) : NeverAdds (pure a : ReaderOf ε α) := by
  intro cursor b cursor' h
  cases h
  exact Nat.le_refl _

theorem neverAdds_get : NeverAdds (get : ReaderOf ε Cursor) := by
  intro cursor a cursor' h
  cases h
  exact Nat.le_refl _

theorem NeverAdds.bind {first : ReaderOf ε α} {next : α → ReaderOf ε β} (h₁ : NeverAdds first)
    (h₂ : ∀ a, NeverAdds (next a)) : NeverAdds (first >>= next) := by
  intro cursor b cursor' h
  simp only [Bind.bind, EStateM.bind] at h
  split at h
  · rename_i hf
    exact Nat.le_trans (h₂ _ h) (h₁ hf)
  · cases h

theorem Consumes.bind {first : ReaderOf ε α} {next : α → ReaderOf ε β} (h₁ : Consumes first)
    (h₂ : ∀ a, NeverAdds (next a)) : Consumes (first >>= next) := by
  intro cursor b cursor' h
  simp only [Bind.bind, EStateM.bind] at h
  split at h
  · rename_i hf
    exact Nat.lt_of_le_of_lt (h₂ _ h) (h₁ hf)
  · cases h

theorem NeverAdds.bind_consumes {first : ReaderOf ε α} {next : α → ReaderOf ε β} (h₁ : NeverAdds first)
    (h₂ : ∀ a, Consumes (next a)) : Consumes (first >>= next) := by
  intro cursor b cursor' h
  simp only [Bind.bind, EStateM.bind] at h
  split at h
  · rename_i hf
    exact Nat.lt_of_lt_of_le (h₂ _ h) (h₁ hf)
  · cases h

/-! ### Single nodes -/

variable [Faults ε]

/-- Stops because the nodes do not fit the grammar. -/
def fail (cause : GrammarFault) : ReaderOf ε α := throw (Faults.grammar cause)

/-- Stops because there is no room on the stack of calls. -/
def overflow : ReaderOf ε α := throw Faults.overflow

/-- The next node, which stays where it is. -/
def peek : ReaderOf ε Node := fun cursor =>
  match cursor.rest with
  | [] => .error (Faults.grammar .unexpectedEnd) cursor
  | node :: _ => .ok node cursor

/-- Takes the next node. -/
def advance : ReaderOf ε Node := fun cursor =>
  match cursor.rest with
  | [] => .error (Faults.grammar .unexpectedEnd) cursor
  | node :: rest => .ok node { cursor with rest }

/-- Takes the node that ends a list.  Any node does, unless the settings ask for a `)`. -/
def close (settings : Settings) : ReaderOf ε Node := do
  let node ← advance
  if settings.checkClose && !node.isLiteral ")" then fail .expectedClose
  else return node

/-- Takes the next node as an atom.  A `)` is taken too and stands for itself. -/
def atom : ReaderOf ε Node := do
  let node ← peek
  if node.category.isAtomic then
    return .tree .atom [← advance]
  else if node.isLiteral ")" then
    return .leaf ⟨.literal, (← advance).text⟩
  else fail .expectedAtom

theorem consumes_fail (cause : GrammarFault) : Consumes (fail cause : ReaderOf ε α) := by
  intro cursor a cursor' h
  cases h

theorem consumes_overflow : Consumes (overflow : ReaderOf ε α) := by
  intro cursor a cursor' h
  cases h

theorem neverAdds_peek : NeverAdds (peek : ReaderOf ε Node) := by
  intro cursor node cursor' h
  unfold peek at h
  split at h <;> cases h
  exact Nat.le_refl _

theorem consumes_advance : Consumes (advance : ReaderOf ε Node) := by
  intro cursor node cursor' h
  unfold advance at h
  split at h <;> cases h
  simp_all

theorem consumes_close (settings : Settings) :
    Consumes (close settings : ReaderOf ε Node) := by
  refine consumes_advance.bind fun node => ?_
  split
  · exact (consumes_fail _).neverAdds
  · exact neverAdds_pure _

theorem consumes_atom : Consumes (atom : ReaderOf ε Node) := by
  refine neverAdds_peek.bind_consumes fun node => ?_
  split
  · exact consumes_advance.bind fun _ => neverAdds_pure _
  · split
    · exact consumes_advance.bind fun _ => neverAdds_pure _
    · exact consumes_fail _

end Reader

end SexprReader
