import SexprReader.Proofs.Strictness
import SexprReader.Reader.Step

/-!
# What a depth limit changes

Settings with a limit are stricter than those without it, so a limit only cuts (`Strictness`).  Where
the run without the limit gives a result, the limit decides by the nesting of the result alone: if it
admits every level that the lists of the result take up, the run with the limit gives the same result,
and else it stops with a fault of the limit (`Program.read_eq_ok_iff_admits`).  Sequences take up no
levels, however long they are, and lists side by side take up the same ones.

A number as the limit admits the levels up to it (`Settings.admits_iff_of_int`), so from every cursor a
step is cut just where its result nests deeper (`Step.run_limited`).
-/

namespace SexprReader

namespace Settings

/-- The same settings without a limit. -/
def unlimited (settings : Settings) : Settings := { settings with maxDepth := .null }

/-- The limit stops a reader with this fault somewhere. -/
def Refuses (settings : Settings) (fault : ReadFault) : Prop :=
  ∃ level, settings.exceeded level = .ok true ∧ fault = .grammar .tooDeep ∨
    ∃ cause, settings.exceeded level = .error cause ∧ fault = .settings cause

theorem stricter_unlimited (settings : Settings) : settings.Stricter settings.unlimited :=
  ⟨rfl, id, fun _ => Or.inr rfl⟩

/-- Of what is accepted without the limit, the limit only asks how deep lists nest. -/
theorem accepts_iff_admits {settings : Settings} {depth : Nat} {node : Node}
    (h : settings.unlimited.Accepts depth node) :
    settings.Accepts depth node ↔ settings.Admits depth node.nesting :=
  and_iff_left h.2

section Numbers

variable {settings : Settings} {k : Int} {depth n : Nat}

theorem exceeded_of_int (hk : settings.maxDepth = .int k) (level : Nat) :
    settings.exceeded level = .ok (decide (k < level)) := by
  rw [exceeded, hk]

/-- A number as the limit admits the levels up to it. -/
theorem admits_iff_of_int (hk : settings.maxDepth = .int k) :
    settings.Admits depth n ↔ n = 0 ∨ ((depth + n : Nat) : Int) ≤ k := by
  constructor
  · intro h
    by_cases hn : n = 0
    · exact Or.inl hn
    · have he := h (depth + n) (by omega) (by omega)
      rw [exceeded_of_int hk, Except.ok.injEq, decide_eq_false_iff_not] at he
      exact Or.inr (by omega)
  · intro h level hl hu
    rw [exceeded_of_int hk, decide_eq_false (by omega)]

theorem admits_int_iff {k : Nat} (hk : settings.maxDepth = .int k) :
    settings.Admits 0 n ↔ n ≤ k := by
  rw [admits_iff_of_int hk]
  omega

/-- A number stops readers by its own fault only. -/
theorem Objects.eq_tooDeep (hk : settings.maxDepth = .int k) {fault : ReadFault}
    (h : settings.Objects settings.unlimited fault) : fault = .grammar .tooDeep := by
  cases h with
  | tooDeep => rfl
  | incomparable h =>
    rw [exceeded_of_int hk] at h
    cases h
  | expectedClose h h' => cases h.symm.trans h'

end Numbers

end Settings

namespace Program

variable [CallStack]

/-- With a limit, tokens are read to the tree that they are read to without it, if the limit admits
as many levels as lists nest in the tree, and else to none. -/
theorem read_eq_ok_iff_admits {settings : Settings} {options options' : Options}
    (ho : options.settings = .ok settings) (ho' : options'.settings = .ok settings.unlimited)
    {tokens : List Token} {tree : Node} :
    read (tokens.map .leaf) options = .ok tree ↔
      read (tokens.map .leaf) options' = .ok tree ∧ settings.Admits 0 tree.nesting := by
  obtain ⟨hok, herror⟩ := screened_read settings.stricter_unlimited ho ho' tokens
  constructor
  · intro h
    refine ⟨?_, (accepts_of_read ho h).1⟩
    cases hr : read (tokens.map .leaf) options' with
    | ok tree' =>
      by_cases ha : settings.Accepts 0 tree'
      · exact ((hok tree' hr).1 ha).symm.trans h
      · obtain ⟨fault, -, he⟩ := (hok tree' hr).2 ha
        cases he.symm.trans h
    | error fault =>
      obtain he | ⟨fault', -, he⟩ := herror fault hr
      · cases he.symm.trans h
      · cases he.symm.trans h
  · rintro ⟨h, ha⟩
    exact (hok tree h).1 ((Settings.accepts_iff_admits (accepts_of_read ho' h)).2 ha)

/-- The limit admits the levels of every tree that is read under it. -/
theorem admits_of_read {settings : Settings} {options : Options}
    (ho : options.settings = .ok settings) {tokens : List Token} {tree : Node}
    (h : read (tokens.map .leaf) options = .ok tree) : settings.Admits 0 tree.nesting :=
  (accepts_of_read ho h).1

end Program

/-! ### Steps -/

namespace Step

/-- The step reads expressions, so it may enter lists. -/
def readsExprs : Step → Bool
  | program | expr | list | seq | flatSeq => true
  | _ => false

section Bounded

variable [CallStack]

/-- A step that reads expressions runs a reader of a node, which stricter settings screen. -/
theorem exists_screensItem {strict lenient : Settings} (hs : strict.Stricter lenient) {step : Step}
    (h : step.readsExprs = true) :
    ∃ reader reader', step.reader strict = (.node <$> reader) ∧
      step.reader lenient = (.node <$> reader') ∧
      Reader.ScreensItem strict lenient reader reader' := by
  have expr := Reader.screens_expr hs
  cases step with
  | program => exact ⟨_, _, rfl, rfl, Reader.screens_program hs⟩
  | expr => exact ⟨_, _, rfl, rfl, expr⟩
  | list => exact ⟨_, _, rfl, rfl, Reader.screens_listWithin hs CallStack.room⟩
  | seq => exact ⟨_, _, rfl, rfl, Reader.screens_seq hs expr⟩
  | flatSeq => exact ⟨_, _, rfl, rfl, Reader.screens_flatSeq expr⟩
  | _ => cases h

theorem run_of_eq_ok {settings : Settings} {step : Step} {reader : Reader Node}
    (h : step.reader settings = (.node <$> reader)) {cursor later : Cursor} {node : Node}
    (hr : reader cursor = .ok node later) : step.run settings cursor = (.ok (.node node), later) := by
  have hm : (Reply.node <$> reader) cursor = .ok (.node node) later := Reader.bind_of_ok hr
  rw [run, h, hm]

theorem run_of_eq_error {settings : Settings} {step : Step} {reader : Reader Node}
    (h : step.reader settings = (.node <$> reader)) {cursor later : Cursor} {fault : ReadFault}
    (hr : reader cursor = .error fault later) : step.run settings cursor = (.error fault, later) := by
  have hm : (Reply.node <$> reader) cursor = .error fault later := Reader.bind_of_error hr
  rw [run, h, hm]

/-- What a step does by stricter settings: it gives what it gives by the lenient ones, if that is
accepted, and else an objection stops it; a fault stays, or an objection comes before it. -/
theorem screened_run {strict lenient : Settings} (hs : strict.Stricter lenient) {step : Step}
    (h : step.readsExprs = true) {cursor : Cursor} (ht : cursor.IsTokens) :
    (∃ node later, step.run lenient cursor = (.ok (.node node), later) ∧
      (strict.Accepts cursor.depth node → step.run strict cursor = step.run lenient cursor) ∧
      (¬ strict.Accepts cursor.depth node → ∃ fault last, strict.Objects lenient fault ∧
        step.run strict cursor = (.error fault, last))) ∨
    ∃ fault later, step.run lenient cursor = (.error fault, later) ∧
      (step.run strict cursor = step.run lenient cursor ∨
        ∃ fault' last, strict.Objects lenient fault' ∧
          step.run strict cursor = (.error fault', last)) := by
  obtain ⟨reader, reader', hr, hr', hscreens⟩ := exists_screensItem hs h
  have hscreen := (hscreens ht).screened trivial
  cases hf : reader' cursor with
  | ok node later =>
    rw [hf] at hscreen
    obtain ⟨hok, herror⟩ := hscreen.of_ok
    refine Or.inl ⟨node, later, run_of_eq_ok hr' hf, fun ha => ?_, fun hn => ?_⟩
    · rw [run_of_eq_ok hr (hok ha), run_of_eq_ok hr' hf]
    · obtain ⟨fault, last, ho, he⟩ := herror hn
      exact ⟨fault, last, ho, run_of_eq_error hr he⟩
  | error fault later =>
    rw [hf] at hscreen
    refine Or.inr ⟨fault, later, run_of_eq_error hr' hf, ?_⟩
    obtain he | ⟨fault', last, ho, he⟩ := hscreen.of_error
    · exact Or.inl (by rw [run_of_eq_error hr he, run_of_eq_error hr' hf])
    · exact Or.inr ⟨fault', last, ho, run_of_eq_error hr he⟩

/-- Settings accept what a step replies by them. -/
theorem accepts_of_run {settings : Settings} {step : Step} (h : step.readsExprs = true)
    {cursor later : Cursor} (ht : cursor.IsTokens) {node : Node}
    (hr : step.run settings cursor = (.ok (.node node), later)) :
    settings.Accepts cursor.depth node := by
  obtain ⟨reader, reader', hreader, hreader', hscreens⟩ := exists_screensItem (.refl settings) h
  obtain ⟨node', later', hf, -, hn⟩ | ⟨fault, later', hf, -⟩ := screened_run (.refl settings) h ht
  · cases hr.symm.trans hf
    refine Classical.byContradiction fun ha => ?_
    obtain ⟨fault, last, -, he⟩ := hn ha
    cases hr.symm.trans he
  · cases hr.symm.trans hf

section Numbers

variable (checkClose flat : Bool) {step : Step} {cursor : Cursor}

/-- A step under a number as the limit: its result is kept if the lists in it lie within the limit. -/
theorem run_limited_cases (k : Int) (h : step.readsExprs = true) (ht : cursor.IsTokens) :
    let free := step.run { checkClose, flat } cursor
    let limited := step.run { checkClose, flat, maxDepth := .int k } cursor
    (∃ node later, free = (.ok (.node node), later) ∧
      (node.nesting = 0 ∨ ((cursor.depth + node.nesting : Nat) : Int) ≤ k → limited = free) ∧
      (¬ (node.nesting = 0 ∨ ((cursor.depth + node.nesting : Nat) : Int) ≤ k) →
        ∃ last, limited = (.error (.grammar .tooDeep), last))) ∨
    ∃ fault later, free = (.error fault, later) ∧
      (limited = free ∨ ∃ last, limited = (.error (.grammar .tooDeep), last)) := by
  intro free limited
  let settings : Settings := { checkClose, flat, maxDepth := .int k }
  have hk : settings.maxDepth = .int k := rfl
  obtain ⟨node, later, hf, hok, hn⟩ | ⟨fault, later, hf, hstop⟩ :=
    screened_run settings.stricter_unlimited h ht
  · rw [Settings.accepts_iff_admits (accepts_of_run h ht hf), Settings.admits_iff_of_int hk] at hok hn
    refine Or.inl ⟨node, later, hf, hok, fun hdeep => ?_⟩
    obtain ⟨fault, last, ho, he⟩ := hn hdeep
    exact ⟨last, ho.eq_tooDeep hk ▸ he⟩
  · refine Or.inr ⟨fault, later, hf, ?_⟩
    obtain he | ⟨fault', last, ho, he⟩ := hstop
    · exact Or.inl he
    · exact Or.inr ⟨last, ho.eq_tooDeep hk ▸ he⟩

end Numbers

/-- A number as the limit cuts a step that reads expressions just where the lists in its result, and
those that are open before it, nest deeper.  A step that stops without the limit stops with the same
fault or with that of the limit, and a greater limit changes no result. -/
theorem run_limited (checkClose flat : Bool) (k : Int) {step : Step} (h : step.readsExprs = true)
    (tokens : List Token) (i depth : Nat) :
    let cursor := Cursor.ofIndex (tokens.map .leaf) i depth
    let free := step.run { checkClose, flat } cursor
    let limited (k : Int) := step.run { checkClose, flat, maxDepth := .int k } cursor
    (∀ reply later, free = (.ok reply, later) → ∃ node, reply = .node node ∧
      (node.nesting = 0 ∨ ((depth + node.nesting : Nat) : Int) ≤ k → limited k = free) ∧
      (¬ (node.nesting = 0 ∨ ((depth + node.nesting : Nat) : Int) ≤ k) →
        ∃ last, limited k = (.error (.grammar .tooDeep), last))) ∧
    (∀ fault later, free = (.error fault, later) →
      limited k = free ∨ ∃ last, limited k = (.error (.grammar .tooDeep), last)) ∧
    (∀ k' reply later, k ≤ k' → limited k = (.ok reply, later) →
      limited k' = (.ok reply, later)) ∧
    GrammarFault.tooDeep.message = "max nesting depth exceeded" := by
  intro cursor free limited
  have ht : cursor.IsTokens := fun node hn => by
    obtain ⟨token, -, rfl⟩ := List.mem_map.1 (List.mem_of_mem_drop hn)
    exact ⟨token, rfl⟩
  have hcases := fun k => run_limited_cases checkClose flat k h ht
  refine ⟨fun reply later hf => ?_, fun fault later hf => ?_, fun k' reply later hk hl => ?_, rfl⟩
  · obtain ⟨node, later', hf', hcut⟩ | ⟨fault, later', hf', -⟩ := hcases k
    · cases hf.symm.trans hf'
      exact ⟨node, rfl, hcut⟩
    · cases hf.symm.trans hf'
  · obtain ⟨node, later', hf', -⟩ | ⟨fault', later', -, hcut⟩ := hcases k
    · cases hf.symm.trans hf'
    · exact hcut
  · obtain ⟨node, last, hf, hok, hn⟩ | ⟨fault, last, hf, he | ⟨last', he⟩⟩ := hcases k
    · have hfits : node.nesting = 0 ∨ ((depth + node.nesting : Nat) : Int) ≤ k := by
        refine Classical.byContradiction fun hdeep => ?_
        obtain ⟨last', he⟩ := hn hdeep
        cases hl.symm.trans he
      obtain ⟨node', last', hf', hok', -⟩ | ⟨fault, last', hf', -⟩ := hcases k'
      · cases hf.symm.trans hf'
        calc
          limited k' = free := hok' (hfits.imp_right (Int.le_trans · hk))
          _ = limited k := (hok hfits).symm
          _ = (.ok reply, later) := hl
      · cases hf.symm.trans hf'
    · cases hl.symm.trans (he.trans hf)
    · cases hl.symm.trans he

end Bounded

/-- Inside of an open list, a list with two lists side by side takes up the second and third level. -/
theorem run_limited_side_by_side :
    let atom (text : String) : Node := .tree .sexpr [.tree .atom [.leaf ⟨.identifier, text⟩]]
    let list (items : List Node) : Node :=
      .tree .list [.leaf .openParen, .tree .seq items, .leaf .closeParen]
    let node := list [atom "a", .tree .sexpr [list [atom "b"]], .tree .sexpr [list [atom "c"]]]
    let cursor := Cursor.ofIndex (node.leaves.map .leaf) 0 1
    let free := Step.list.run { flat := true } cursor
    let limited (k : Int) := Step.list.run { flat := true, maxDepth := .int k } cursor
    free = (.ok (.node node), .ofIndex (node.leaves.map .leaf) 9 1) ∧ node.nesting = 2 ∧
      limited 3 = free ∧ ∃ last, limited 2 = (.error (.grammar .tooDeep), last) := by
  intro atom list node cursor free limited
  have hfree : free = (.ok (.node node), .ofIndex (node.leaves.map .leaf) 9 1) :=
    Prod.ext (eq_ok_of_toOption (by decide +kernel)) (by decide +kernel)
  have hn : node.nesting = 2 := by decide +kernel
  obtain ⟨hcut, -⟩ := @run_limited _ false true 3 .list rfl node.leaves 0 1
  obtain ⟨hcut', -⟩ := @run_limited _ false true 2 .list rfl node.leaves 0 1
  obtain ⟨_, ⟨⟩, hkept, -⟩ := hcut _ _ hfree
  obtain ⟨_, ⟨⟩, -, hstops⟩ := hcut' _ _ hfree
  refine ⟨hfree, hn, hkept (Or.inr ?_), hstops ?_⟩
  · rw [hn]
    decide
  · rw [hn]
    decide

end Step

end SexprReader
