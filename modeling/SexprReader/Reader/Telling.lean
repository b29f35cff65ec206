import SexprReader.Reader.List

/-!
# Readers that tell

A fault of the grammar is told where it is met, before the reader stops.  `Told` is the type of faults
of readers that do so: it has what was told besides the fault.  Only an overflow of the stack of calls
stops a reader without a word; that is left to whoever started it.

Readers that tell are the readers of this library at another type of faults, and `Tells` relates the
two: the one stops where the other does, and has told the fault once, however many lists are open
there.  Nothing is told on the way to a result, and nothing again on the way out of the lists.
-/

namespace SexprReader

/-- The fault that stops a reader, and the faults that were told until then. -/
structure Told where
  fault : ReadFault
  log : List GrammarFault

instance : Faults Told where
  grammar cause := ⟨.grammar cause, [cause]⟩
  settings cause := ⟨.settings cause, []⟩
  overflow := ⟨.grammar .overCap, []⟩

/-- A fault, with what is told of it where it is met. -/
def ReadFault.told : ReadFault → Told
  | grammar .overCap => ⟨.grammar .overCap, []⟩
  | grammar cause => ⟨.grammar cause, [cause]⟩
  | settings cause => ⟨.settings cause, []⟩

/-- A reader that tells the faults of the grammar where it meets them. -/
abbrev Teller := ReaderOf Told

namespace Teller

variable {α β : Type}

/-- What comes of a run if the fault that stops it is told where it is met. -/
def telling : EStateM.Result ReadFault Cursor α → EStateM.Result Told Cursor α
  | .ok a cursor => .ok a cursor
  | .error fault cursor => .error fault.told cursor

/-- The teller does what the reader does, and tells the fault that stops it once. -/
def Tells (teller : Teller α) (reader : Reader α) : Prop :=
  ∀ cursor, teller cursor = telling (reader cursor)

/-! ### Rules for `Tells` -/

section Rules

variable {first : Teller α} {first' : Reader α} {cursor later : Cursor}

theorem Tells.bind_of_ok (h : Tells first first') {a : α} (hf : first' cursor = .ok a later)
    (next : α → Teller β) : (first >>= next) cursor = next a later := by
  simp only [Bind.bind, EStateM.bind, h cursor, hf, telling]

theorem Tells.bind_of_error (h : Tells first first') {fault : ReadFault}
    (hf : first' cursor = .error fault later) (next : α → Teller β) :
    (first >>= next) cursor = .error fault.told later := by
  simp only [Bind.bind, EStateM.bind, h cursor, hf, telling]

theorem Tells.bind {next : α → Teller β} {next' : α → Reader β} (h : Tells first first')
    (hn : ∀ a, Tells (next a) (next' a)) : Tells (first >>= next) (first' >>= next') := by
  intro cursor
  cases hf : first' cursor with
  | ok a later =>
    rw [h.bind_of_ok hf, hn a later]
    simp only [Bind.bind, EStateM.bind, hf]
  | error fault later =>
    rw [h.bind_of_error hf]
    simp only [Bind.bind, EStateM.bind, hf, telling]

theorem tells_pure (a : α) : Tells (pure a) (pure a) := fun _ => rfl

theorem tells_fail {cause : GrammarFault} (h : cause ≠ .overCap) :
    Tells (Reader.fail cause : Teller α) (Reader.fail cause) := by
  intro cursor
  cases cause with
  | overCap => exact absurd rfl h
  | unexpectedEnd | expectedOpen | expectedClose | expectedAtom | tooDeep => rfl

end Rules

/-! ### Single nodes -/

theorem tells_peek : Tells Reader.peek Reader.peek := by
  rintro ⟨_ | ⟨node, rest⟩, depth⟩ <;> rfl

theorem tells_advance : Tells Reader.advance Reader.advance := by
  rintro ⟨_ | ⟨node, rest⟩, depth⟩ <;> rfl

theorem tells_atom : Tells Reader.atom Reader.atom := by
  refine tells_peek.bind fun node => ?_
  split
  · exact tells_advance.bind fun _ => tells_pure _
  · split
    · exact tells_advance.bind fun _ => tells_pure _
    · exact tells_fail nofun

/-! ### Sequences -/

section Sequences

variable {teller : Reader.ItemOf Told} {item : Reader.Item}

/-- The fault of a list is not told once more on the way out of it. -/
theorem Tells.nested {inner : Teller α} {inner' : Reader α} (settings : Settings)
    (h : Tells inner inner') :
    Tells (Reader.nested settings inner) (Reader.nested settings inner') := by
  rintro ⟨rest, depth⟩
  simp only [Reader.nested, h _]
  cases settings.exceeded (depth + 1) with
  | error cause => rfl
  | ok refused =>
    cases refused with
    | true => rfl
    | false =>
      dsimp only
      cases inner' ⟨rest, depth + 1⟩ <;> rfl

theorem Tells.exprOf {list : Teller Node} {list' : Reader Node} (h : Tells list list') :
    Tells (Reader.exprOf list) (Reader.exprOf list') := by
  refine tells_peek.bind fun node => ?_
  dsimp only
  split
  · exact h.bind fun _ => tells_pure _
  · exact tells_atom.bind fun _ => tells_pure _

end Sequences

variable [CallStack]

end Teller

end SexprReader
