import SexprReader.Proofs.Limit
import SexprReader.Reader.Step

/-!
# Sessions

A session runs steps one after the other over the same nodes, and a step that stops with a fault leaves
the cursor to the next one.  So it matters where a reader stands that has stopped (`Stopped`): nodes
are taken from the front only; for want of a node it stops at the end; and the depth is as it was,
except that one level is not given back where the limit refused a list.

What readers leave when they give a result is known (`Takes`), so `Stops` is about faults alone.  It
is kept by binds (`Stops.bind`), and by `nested`, where every level but the refused one is given back
(`Stops.nested`).  From what one step does (`Step.moves_run`) follows what a session does
(`Step.moves_of_runAll`): its depth counts the steps that the limit refused.
-/

namespace SexprReader

/-- The depth was compared with the limit, and the limit did not admit it. -/
def ReadFault.isRefusal : ReadFault → Bool
  | .grammar .tooDeep | .settings _ => true
  | .grammar _ => false

namespace Reader

variable {α β : Type} {settings : Settings}

/-- Where a reader from the cursor stands, at `later`, when it has stopped with the fault. -/
structure Stopped (settings : Settings) (cursor later : Cursor) (fault : ReadFault) : Prop where
  suffix : later.rest <:+ cursor.rest
  depth : later.depth = cursor.depth + fault.isRefusal.toNat
  ended : fault = .grammar .unexpectedEnd → later.rest = []
  refused : fault.isRefusal = true → settings.Refuses fault

/-- Whenever the reader stops, it stands where `Stopped` says. -/
def Stops (settings : Settings) (reader : Reader α) : Prop :=
  ∀ ⦃cursor fault later⦄, reader cursor = .error fault later → Stopped settings cursor later fault

/-! ### Rules for `Stops` -/

section Rules

variable {first : Reader α} {next : α → Reader β} {post : List Node → α → Prop}
  {cursor middle later : Cursor} {fault : ReadFault}

/-- What stands behind nodes that were taken also stands behind them. -/
theorem Stopped.of_takes (h : Stopped settings middle later fault) (ht : Takes first post) {a : α}
    (hf : first cursor = .ok a middle) : Stopped settings cursor later fault := by
  obtain ⟨taken, hr, hd, -⟩ := ht hf
  refine ⟨h.suffix.trans ?_, hd ▸ h.depth, h.ended, h.refused⟩
  rw [hr]
  exact List.suffix_append taken middle.rest

theorem stops_pure (a : α) : Stops settings (pure a) := by
  intro cursor fault later h
  cases h

theorem stops_fail {cause : GrammarFault} (he : cause ≠ .unexpectedEnd) (hd : cause ≠ .tooDeep) :
    Stops settings (fail cause : Reader α) := by
  intro cursor fault later h
  cases h
  have hr : (ReadFault.grammar cause).isRefusal = false := by
    cases cause <;> first | rfl | exact absurd rfl hd
  simp only [Faults.grammar_eq]
  exact ⟨List.suffix_rfl, by rw [hr]; rfl, fun h => absurd (ReadFault.grammar.inj h) he,
    fun h => absurd (hr.symm.trans h) (by decide)⟩

theorem stops_overflow : Stops settings (overflow : Reader α) :=
  @stops_fail α settings .overCap (by decide) (by decide)

theorem stopped_of_ended (depth : Nat) :
    Stopped settings ⟨[], depth⟩ ⟨[], depth⟩ (.grammar .unexpectedEnd) :=
  ⟨List.suffix_rfl, rfl, fun _ => rfl, fun h => absurd h (by decide)⟩

theorem stops_peek : Stops settings peek := by
  rintro ⟨_ | ⟨node, rest⟩, depth⟩ fault later h <;> cases h
  exact stopped_of_ended depth

theorem stops_advance : Stops settings advance := by
  rintro ⟨_ | ⟨node, rest⟩, depth⟩ fault later h <;> cases h
  exact stopped_of_ended depth

theorem stops_get : Stops settings (get : Reader Cursor) := by
  intro cursor fault later h
  cases h

theorem Stops.bind (h : Stops settings first) (ht : Takes first post)
    (hn : ∀ a, Stops settings (next a)) : Stops settings (first >>= next) := by
  intro cursor fault later he
  cases hf : first cursor with
  | ok a middle =>
    rw [bind_of_ok hf] at he
    exact (hn a he).of_takes ht hf
  | error fault' middle =>
    rw [bind_of_error hf] at he
    cases he
    exact h hf

theorem Stops.map (h : Stops settings first) (f : α → β) : Stops settings (f <$> first) := by
  intro cursor fault later he
  cases hf : first cursor with
  | ok a last =>
    simp only [Functor.map, EStateM.map, hf] at he
    cases he
  | error fault' last =>
    simp only [Functor.map, EStateM.map, hf] at he
    cases he
    exact h hf

theorem Takes.map (h : Takes first post) (f : α → β) : Takes (f <$> first) fun _ _ => True := by
  intro cursor b later he
  obtain ⟨a, last, hf, hb⟩ := bind_eq_ok_iff.1 he
  cases hb
  obtain ⟨taken, ht, hd, -⟩ := h hf
  exact ⟨taken, ht, hd, trivial⟩

/-- Inside of one more list all levels are given back but the one that was refused. -/
theorem Stops.nested {inner : Reader α} (h : Stops settings inner) :
    Stops settings (Reader.nested settings inner) := by
  rintro ⟨rest, depth⟩ fault later he
  cases hd : settings.exceeded (depth + 1) with
  | error cause =>
    rw [nested_of_error hd] at he
    cases he
    exact ⟨List.suffix_rfl, rfl, nofun, fun _ => ⟨depth + 1, Or.inr ⟨cause, hd, rfl⟩⟩⟩
  | ok refused =>
    cases refused with
    | true =>
      rw [nested_of_exceeded hd] at he
      cases he
      exact ⟨List.suffix_rfl, rfl, nofun, fun _ => ⟨depth + 1, Or.inl ⟨hd, rfl⟩⟩⟩
    | false =>
      rw [nested_of_admitted hd] at he
      cases hi : inner ⟨rest, depth + 1⟩ with
      | ok a last =>
        rw [hi] at he
        cases he
      | error fault' last =>
        rw [hi] at he
        cases he
        obtain ⟨hs, hdepth, hend, hr⟩ := h hi
        refine ⟨hs, ?_, hend, hr⟩
        change last.depth = depth + 1 + fault.isRefusal.toNat at hdepth
        show last.depth - 1 = depth + fault.isRefusal.toNat
        omega

end Rules

/-! ### Readers -/

theorem stops_close (settings : Settings) : Stops settings (close settings) := by
  refine stops_advance.bind takes_advance fun node => ?_
  split
  · exact stops_fail (by decide) (by decide)
  · exact stops_pure _

theorem stops_atom : Stops settings atom := by
  refine stops_peek.bind takes_peek fun node => ?_
  split
  · exact stops_advance.bind takes_advance fun _ => stops_pure _
  · split
    · exact stops_advance.bind takes_advance fun _ => stops_pure _
    · exact stops_fail (by decide) (by decide)

theorem stops_expectOpen : Stops settings expectOpen := by
  refine stops_peek.bind takes_peek fun node => ?_
  split
  · exact stops_pure _
  · exact stops_fail (by decide) (by decide)

/-- A reader of expressions of which both is known: what it leaves, and where it stops. -/
structure StopsItem (settings : Settings) (item : Item) : Prop where
  lossless : Lossless item.read
  stops : Stops settings item.read

variable {item : Item}

theorem stops_chainFrom (hi : StopsItem settings item) (head : Node) (outer : List Pending) :
    Stops settings (chainFrom item head outer) := by
  intro cursor fault later h
  fun_induction chainFrom item head outer cursor with
  | case1 head outer cursor hr =>
    obtain ⟨_, depth⟩ := cursor
    cases hr
    cases h
    exact stopped_of_ended depth
  | case2 => cases h
  | case3 _ _ _ _ _ _ _ _ _ _ hr =>
    cases h
    exact hi.stops hr
  | case4 _ _ _ _ _ _ _ _ _ _ hr ih => exact (ih h).of_takes hi.lossless hr

theorem stops_flatFrom (hi : StopsItem settings item) (found : List Node) :
    Stops settings (flatFrom item found) := by
  intro cursor fault later h
  fun_induction flatFrom item found cursor with
  | case1 => cases h
  | case2 _ _ _ _ _ hr =>
    cases h
    exact hi.stops hr
  | case3 _ _ _ _ _ hr ih => exact (ih h).of_takes hi.lossless hr

theorem stops_flatSeq (hi : StopsItem settings item) : Stops settings (flatSeq item) :=
  hi.stops.bind hi.lossless fun head => stops_flatFrom hi [head]

theorem stops_seq (hi : StopsItem settings item) : Stops settings (seq settings item) := by
  unfold seq
  split
  · exact stops_flatSeq hi
  · exact hi.stops.bind hi.lossless fun head => stops_chainFrom hi head []

theorem stops_body (hi : StopsItem settings item) : Stops settings (body settings item) := by
  refine stops_get.bind takes_get fun cursor => ?_
  split
  · exact stops_pure _
  · exact (stops_seq hi).bind (lossless_seq settings hi.lossless) fun _ => stops_pure _

theorem stops_listOf (hi : StopsItem settings item) : Stops settings (listOf settings item) := by
  refine stops_expectOpen.bind takes_expectOpen fun _ => Stops.nested ?_
  refine stops_advance.bind takes_advance fun opener => ?_
  refine (stops_body hi).bind (takes_body settings hi.lossless) fun held => ?_
  exact (stops_close settings).bind (lossless_close settings) fun _ => stops_pure _

theorem stops_exprOf {list : Reader Node} (hs : Stops settings list) (hl : Lossless list) :
    Stops settings (exprOf list) := by
  refine stops_peek.bind takes_peek fun node => ?_
  dsimp only
  split
  · exact hs.bind hl fun _ => stops_pure _
  · exact stops_atom.bind lossless_atom fun _ => stops_pure _

section Bounded

variable [CallStack]

/-- For want of room a reader stops at the end of the nodes if it says that it is the end. -/
theorem stops_starved : Stops settings starved := by
  rintro ⟨_ | ⟨node, rest⟩, depth⟩ fault later h
  · rw [starved_eq, starvation] at h
    split at h
    · cases h
      exact stopped_of_ended depth
    · exact stops_overflow h
  · rw [starved_eq, starvation_cons] at h
    exact stops_overflow h

theorem stops_listWithin (settings : Settings) (room : Nat) :
    Stops settings (listWithin settings room).read := by
  induction room with
  | zero => exact stops_listOf ⟨takes_starved _, stops_starved⟩
  | succ room ih =>
    exact stops_listOf ⟨lossless_exprOf (lossless_listWithin settings room),
      stops_exprOf ih (lossless_listWithin settings room)⟩

theorem stopsItem_expr (settings : Settings) : StopsItem settings (expr settings) :=
  ⟨lossless_expr settings, stops_exprOf (stops_listWithin settings CallStack.room)
    (lossless_list settings)⟩

end Bounded

theorem stops_programFrom (hi : StopsItem settings item) (found : List Node) :
    Stops settings (programFrom item found) := by
  intro cursor fault later h
  fun_induction programFrom item found cursor with
  | case1 => cases h
  | case2 _ _ _ _ _ _ _ hr =>
    cases h
    exact hi.stops hr
  | case3 _ _ _ _ _ _ _ hr ih => exact (ih h).of_takes hi.lossless hr

theorem stops_program [CallStack] (settings : Settings) : Stops settings (program settings) :=
  stops_programFrom (stopsItem_expr settings) []

end Reader

/-! ### Steps -/

/-- A cursor with a suffix of the nodes stands at an index. -/
theorem Cursor.exists_ofIndex_of_suffix {nodes : List Node} {i : Nat} (hi : i ≤ nodes.length)
    {cursor : Cursor} (hs : cursor.rest <:+ nodes.drop i) :
    ∃ j, i ≤ j ∧ j ≤ nodes.length ∧ cursor = .ofIndex nodes j cursor.depth ∧
      (cursor.rest = [] → j = nodes.length) := by
  obtain ⟨taken, ht⟩ := hs
  have hlen : taken.length + cursor.rest.length = nodes.length - i := by
    rw [← List.length_append, ht, List.length_drop]
  have hrest : nodes.drop (i + taken.length) = cursor.rest := by
    rw [← List.drop_drop, ← ht, List.drop_left]
  refine ⟨i + taken.length, by omega, by omega, by rw [ofIndex, hrest], fun he => ?_⟩
  rw [he, List.length_nil] at hlen
  omega

namespace Step

variable {settings : Settings} {nodes : List Node}

/-- The step has stopped because the limit refused a list. -/
def isRefused : Except ReadFault Reply → Bool
  | .ok _ => false
  | .error fault => fault.isRefusal

/-- The number of steps that the limit has refused. -/
def refusals (outcomes : List (Except ReadFault Reply × Cursor)) : Nat :=
  outcomes.countP fun outcome => isRefused outcome.1

theorem refusals_cons (outcome : Except ReadFault Reply × Cursor)
    (outcomes : List (Except ReadFault Reply × Cursor)) :
    refusals (outcome :: outcomes) = (isRefused outcome.1).toNat + refusals outcomes := by
  rw [refusals, List.countP_cons, Nat.add_comm]
  cases isRefused outcome.1 <;> rfl

section Bounded

variable [CallStack]

theorem takes_reader (settings : Settings) (step : Step) :
    Reader.Takes (step.reader settings) fun _ _ => True := by
  by_cases h : step.takesNodes = true
  · obtain ⟨reader, hr, hl, -⟩ := exists_lossless_reader settings h
    rw [hr]
    exact hl.map _
  · cases step with
    | peek => exact Reader.takes_peek.map _
    | atEnd => exact Reader.takes_get.map _
    | atClose => exact Reader.takes_get.map _
    | _ => exact absurd rfl h

theorem stops_reader (settings : Settings) (step : Step) :
    Reader.Stops settings (step.reader settings) := by
  have expr := Reader.stopsItem_expr settings
  cases step with
  | program => exact (Reader.stops_program settings).map _
  | expr => exact expr.stops.map _
  | list => exact (Reader.stops_listWithin settings CallStack.room).map _
  | seq => exact (Reader.stops_seq expr).map _
  | flatSeq => exact (Reader.stops_flatSeq expr).map _
  | atom => exact Reader.stops_atom.map _
  | close => exact (Reader.stops_close settings).map _
  | peek => exact Reader.stops_peek.map _
  | advance => exact Reader.stops_advance.map _
  | atEnd => exact Reader.stops_get.map _
  | atClose => exact Reader.stops_get.map _

/-- From the index `i` and the depth a step leads to an index that is no earlier, which is the last
one if a node was wanting, and to a depth that is greater only if the limit refused a list. -/
def Moves (settings : Settings) (nodes : List Node) (i depth : Nat)
    (outcome : Except ReadFault Reply × Cursor) : Prop :=
  ∃ j, i ≤ j ∧ j ≤ nodes.length ∧
    outcome.2 = .ofIndex nodes j (depth + (isRefused outcome.1).toNat) ∧
    (outcome.1 = .error (.grammar .unexpectedEnd) → j = nodes.length) ∧
    ∀ fault, outcome.1 = .error fault → fault.isRefusal = true → settings.Refuses fault

theorem moves_run (step : Step) {i : Nat} (hi : i ≤ nodes.length) (depth : Nat) :
    Moves settings nodes i depth (step.run settings (.ofIndex nodes i depth)) := by
  rw [run]
  cases hr : step.reader settings (.ofIndex nodes i depth) with
  | ok reply later =>
    obtain ⟨taken, ht, hd, -⟩ := takes_reader settings step hr
    obtain ⟨j, hij, hj, he, -⟩ :=
      Cursor.exists_ofIndex_of_suffix hi (ht ▸ List.suffix_append taken later.rest)
    refine ⟨j, hij, hj, he.trans (congrArg _ hd), fun h => ?_, fun fault h => ?_⟩ <;> cases h
  | error fault later =>
    obtain ⟨hs, hd, hend, href⟩ := stops_reader settings step hr
    obtain ⟨j, hij, hj, he, hlast⟩ := Cursor.exists_ofIndex_of_suffix hi hs
    refine ⟨j, hij, hj, he.trans (congrArg _ hd), fun h => ?_, fun fault' h => ?_⟩
    · cases h
      exact hlast (hend rfl)
    · cases h
      exact href

/-! ### Sessions -/

theorem length_runAll (settings : Settings) (steps : List Step) (cursor : Cursor) :
    (runAll settings steps cursor).length = steps.length := by
  induction steps generalizing cursor with
  | nil => rfl
  | cons step steps ih => rw [runAll, List.length_cons, List.length_cons, ih]

/-- Each step of a session moves from where the steps before it have led. -/
theorem moves_of_runAll (steps : List Step) {i : Nat} (hi : i ≤ nodes.length) (depth n : Nat)
    {outcome : Except ReadFault Reply × Cursor}
    (h : (runAll settings steps (.ofIndex nodes i depth))[n]? = some outcome) :
    let outcomes := runAll settings steps (.ofIndex nodes i depth)
    ∃ j, (Cursor.ofIndex nodes i depth :: outcomes.map Prod.snd)[n]? =
        some (.ofIndex nodes j (depth + refusals (outcomes.take n))) ∧
      Moves settings nodes j (depth + refusals (outcomes.take n)) outcome := by
  induction steps generalizing i depth n with
  | nil => cases h
  | cons step steps ih =>
    intro outcomes
    obtain ⟨k, hik, hk, hlater, hstop⟩ := moves_run step hi depth
    cases n with
    | zero =>
      cases h
      exact ⟨i, rfl, k, hik, hk, hlater, hstop⟩
    | succ n =>
      rw [runAll, List.getElem?_cons_succ, hlater] at h
      obtain ⟨j, hcursor, hmoves⟩ := ih hk _ n h
      have htail : outcomes = step.run settings (.ofIndex nodes i depth) ::
          runAll settings steps (.ofIndex nodes k
            (depth + (isRefused (step.run settings (.ofIndex nodes i depth)).1).toNat)) := by
        rw [← hlater]
        rfl
      rw [htail, List.map_cons, List.getElem?_cons_succ, List.take_succ_cons, refusals_cons, hlater,
        ← Nat.add_assoc]
      exact ⟨j, hcursor, hmoves⟩

/-- After each step of a session that starts with a new reader the cursor is no earlier than before the
step and within the nodes, at their end if the step stopped for want of a node, and the depth is the
number of steps so far that the limit refused. -/
theorem runAll_moves (settings : Settings) (nodes : List Node) (steps : List Step) :
    let outcomes := runAll settings steps ⟨nodes, 0⟩
    let cursors := ⟨nodes, 0⟩ :: outcomes.map Prod.snd
    let refused := fun n => refusals (outcomes.take n)
    outcomes.length = steps.length ∧
      (∀ n result later, outcomes[n]? = some (result, later) →
        ∃ i j, cursors[n]? = some (.ofIndex nodes i (refused n)) ∧
          later = .ofIndex nodes j (refused (n + 1)) ∧ i ≤ j ∧ j ≤ nodes.length ∧
          (result = .error (.grammar .unexpectedEnd) → j = nodes.length) ∧
          refused (n + 1) = refused n + (isRefused result).toNat ∧
          ∀ fault, result = .error fault → fault.isRefusal = true → settings.Refuses fault) ∧
      GrammarFault.unexpectedEnd.message = "unexpected end of input" ∧
      GrammarFault.tooDeep.message = "max nesting depth exceeded" := by
  intro outcomes cursors refused
  refine ⟨length_runAll settings steps _, fun n result later h => ?_, rfl, rfl⟩
  have hmoves := moves_of_runAll (i := 0) steps (Nat.zero_le nodes.length) 0 n h
  simp only [Nat.zero_add] at hmoves
  obtain ⟨i, hcursor, j, hij, hj, hlater, hend, href⟩ := hmoves
  have hrefused : refused (n + 1) = refused n + (isRefused result).toNat := by
    show refusals (outcomes.take (n + 1)) = _
    rw [List.take_add_one, h, refusals, List.countP_append]
    exact congrArg _ (refusals_cons (result, later) [])
  refine ⟨i, j, hcursor, ?_, hij, hj, hend, hrefused, href⟩
  rw [hrefused]
  exact hlater

end Bounded

/-- Of two lists one inside of the other the limit refuses the second one, and the level that is not
given back stays until the nodes are at an end. -/
theorem runAll_moves_refused :
    let nodes : List Node := [.leaf .openParen, .leaf .openParen]
    let outcomes := runAll { maxDepth := .int 1 } [.list, .advance, .peek] ⟨nodes, 0⟩
    (∃ fault, (outcomes[0]?).map Prod.fst = some (.error fault) ∧ fault.isRefusal = true) ∧
      ∃ later, outcomes[2]? = some (.error (.grammar .unexpectedEnd), later) ∧
        later = .ofIndex nodes nodes.length 1 ∧ refusals (outcomes.take 3) = 1 := by
  intro nodes outcomes
  have hfirst : (outcomes.map fun outcome => grammarFault? outcome.1)[0]? =
      some (some .tooDeep) := by decide +kernel
  have hlast : (outcomes.map fun outcome => grammarFault? outcome.1)[2]? =
      some (some .unexpectedEnd) := by decide +kernel
  have hrefused : refusals (outcomes.take 3) = 1 := by decide +kernel
  rw [List.getElem?_map, Option.map_eq_some_iff] at hfirst hlast
  obtain ⟨⟨result, later⟩, ho, hresult⟩ := hfirst
  obtain ⟨⟨result', later'⟩, ho', hresult'⟩ := hlast
  have he : result = _ := eq_error_of_grammarFault? hresult
  have he' : result' = _ := eq_error_of_grammarFault? hresult'
  obtain ⟨-, hmoves, -⟩ :=
    runAll_moves { maxDepth := .int 1 } nodes [.list, .advance, .peek]
  obtain ⟨i, j, -, hlater, -, -, hend, -⟩ := hmoves 2 result' later' ho'
  refine ⟨⟨_, by rw [ho, Option.map_some, he], rfl⟩, later', by rw [ho', he'], ?_, hrefused⟩
  rw [hlater, hend he']
  exact congrArg _ hrefused

end Step

end SexprReader
