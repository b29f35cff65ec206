import SexprReader.Proofs.Locality
import SexprReader.Proofs.OpenLists

/-!
# What more nodes can change

A fault for want of a node says that the nodes are incomplete, and every other fault is final, but for
an overflow of the stack of calls.

A reader that is local stops with the same fault if more nodes come behind, unless a node was wanting or
there was no room for one; so does a program (`programFrom_extend_of_error`).  Where a node was wanting,
the machines of `Tally` and `OpenLists` have not stopped, but have come to the end with lists open.
There are no more of these than tokens, and only the innermost one may have no expression yet
(`Tally.ready_of_step`).  Such a list takes one `)` as its expression, and every list takes one for its
end, so that many `)`, and any number more, complete the tokens (`Tally.outcome_append_replicate`,
`OpenLists.outcome_append_replicate`).  Room for them can be wanting only in a list that the last token
opens (`Tally.outcomeWithin_append_replicate`).

At the edge of the stack of calls neither law holds.  A flat list without room for an expression
overflows the stack at the end of the nodes, and is read with a `)` behind.  If the end is noticed
first, a chained list wants a node there and overflows the stack with any node behind.
-/

namespace SexprReader

namespace Reader

/-- Where a program stops, it stops also with more nodes behind, unless the fault need not stay. -/
theorem programFrom_extend_of_error {item : Item} (hi : IsLocal item.read) {found : List Node}
    {cursor last : Cursor} {fault : ReadFault}
    (h : programFrom item found cursor = .error fault last) (hne : ¬ fault.IsOpen)
    (more : List Node) :
    programFrom item found (cursor.extend more) = .error fault (last.extend more) := by
  have extend_rest : ∀ {cursor : Cursor} {next : Node} {rest : List Node},
      cursor.rest = next :: rest → (cursor.extend more).rest = next :: (rest ++ more) := by
    intro cursor next rest hr
    rw [Cursor.extend, hr, List.cons_append]
  fun_induction programFrom item found cursor with
  | case1 => cases h
  | case2 found cursor next rest hr fault' last' he =>
    cases h
    rw [programFrom_of_cons item found (extend_rest hr)]
    exact bind_of_error (((hi cursor).eq_error he more).resolve_left hne)
  | case3 found cursor next rest hr node later he ih =>
    rw [programFrom_of_cons item found (extend_rest hr), bind_of_ok ((hi cursor).eq_ok he more)]
    exact ih h

end Reader

namespace Tally

variable {checkClose : Bool} {allow : Nat → Except ReadFault Unit} {stack stack' : List Frame}

/-- The bound on the stack has faults of its own. -/
theorem admitted_ne_unexpectedEnd (settings : Settings) (height : Nat) :
    admitted settings height ≠ .error (.grammar .unexpectedEnd) := by
  unfold admitted
  split <;> simp

/-! ### Chained sequences -/

theorem enter_ne_unexpectedEnd (ha : ∀ height, allow height ≠ .error (.grammar .unexpectedEnd))
    (stack : List Frame) : enter allow stack ≠ .error (.grammar .unexpectedEnd) :=
  fun h => ha _ ((enter_eq_error_iff allow).1 h)

theorem step_ne_unexpectedEnd (ha : ∀ height, allow height ≠ .error (.grammar .unexpectedEnd))
    (stack : List Frame) (node : Node) :
    step checkClose allow stack node ≠ .error (.grammar .unexpectedEnd) := by
  unfold step
  split
  · rcases stack with _ | ⟨_ | _ | n, outer⟩
    · exact enter_ne_unexpectedEnd ha _
    · exact enter_ne_unexpectedEnd ha _
    · dsimp only
      split <;> simp
    · exact enter_ne_unexpectedEnd ha _
  · split <;> rcases stack with _ | ⟨_ | n, outer⟩ <;> simp

/-- All lists but the innermost one have expressions, and a step opens one list at most. -/
theorem ready_of_step {node : Node} (h : step checkClose allow stack node = .ok stack')
    (hr : Ready stack) : Ready stack' ∧ stack'.length ≤ stack.length + 1 := by
  have entered : ∀ outer : List Frame, Settled outer → enter allow outer = .ok stack' →
      Ready stack' ∧ stack'.length ≤ outer.length + 1 := by
    intro outer ho he
    obtain ⟨-, rfl⟩ := (enter_eq_ok_iff allow).1 he
    exact ⟨ho, Nat.le_refl _⟩
  unfold step at h
  split at h
  · rcases stack with _ | ⟨_ | _ | n, outer⟩
    · exact entered [] hr h
    · exact entered (.counted 0 :: outer) (settled_cons hr) h
    · dsimp only at h
      split at h <;> cases h
      exact ⟨Settled.ready hr, by simp; omega⟩
    · exact entered (.counted n :: outer) (settled_cons hr) h
  · split at h <;> rcases stack with _ | ⟨_ | n, outer⟩ <;> cases h
    · exact ⟨hr, by simp⟩
    · exact ⟨hr, by simp⟩
    · exact ⟨Settled.ready hr, by simp; omega⟩
    · exact ⟨hr, by simp⟩
    · exact ⟨hr, by simp⟩
    · exact ⟨hr, by simp⟩

/-- Each list that has expressions is ended by one `)`. -/
theorem outcome_replicate_of_settled (hs : Settled stack) {n : Nat} (hn : stack.length ≤ n) :
    outcome checkClose allow stack (List.replicate n (.leaf .closeParen)) = .ok () := by
  induction n generalizing stack with
  | zero =>
    rw [List.eq_nil_of_length_eq_zero (Nat.le_zero.1 hn)]
    rfl
  | succ n ih =>
    rw [List.replicate_succ, outcome_cons, step_closeParen]
    rcases stack with _ | ⟨frame, outer⟩
    · exact ih hs (Nat.zero_le n)
    · obtain ⟨⟨k, rfl⟩, ho⟩ := List.forall_mem_cons.1 hs
      exact ih ho (Nat.le_of_succ_le_succ hn)

theorem outcome_replicate (hr : Ready stack) {n : Nat} (hn : stack.length + 1 ≤ n) :
    outcome checkClose allow stack (List.replicate n (.leaf .closeParen)) = .ok () := by
  rcases stack with _ | ⟨_ | k, outer⟩
  · exact outcome_replicate_of_settled settled_nil (Nat.zero_le n)
  · -- the innermost list takes the first `)` as its expression
    obtain ⟨m, rfl⟩ : ∃ m, n = m + 1 := ⟨n - 1, by omega⟩
    rw [List.replicate_succ, outcome_cons, step_closeParen]
    exact outcome_replicate_of_settled (settled_cons hr) (Nat.le_of_succ_le_succ hn)
  · exact outcome_replicate_of_settled (settled_cons hr) (Nat.le_of_succ_le hn)

/-- If a node is wanting, so many `)` more are enough: each node before has opened one list at most. -/
theorem outcome_append_replicate (ha : ∀ height, allow height ≠ .error (.grammar .unexpectedEnd))
    (hr : Ready stack) {nodes : List Node}
    (h : outcome checkClose allow stack nodes = .error (.grammar .unexpectedEnd)) {n : Nat}
    (hn : stack.length + nodes.length + 1 ≤ n) :
    outcome checkClose allow stack (nodes ++ List.replicate n (.leaf .closeParen)) = .ok () := by
  induction nodes generalizing stack with
  | nil => exact outcome_replicate hr hn
  | cons node rest ih =>
    rw [outcome_cons] at h
    rw [List.cons_append, outcome_cons]
    cases hs : step checkClose allow stack node with
    | ok stack' =>
      obtain ⟨hr', hl⟩ := ready_of_step hs hr
      rw [hs] at h
      rw [List.length_cons] at hn
      exact ih hr' h (by omega)
    | error fault =>
      rw [hs] at h
      cases h
      exact absurd hs (step_ne_unexpectedEnd ha stack node)

section Room

variable [CallStack] {room : Nat}

/-- There is room for a `)` wherever there is room to read on. -/
theorem outcomeWithin_replicate (h : stack.length ≤ room) (n : Nat) :
    outcomeWithin room checkClose allow stack (List.replicate n (.leaf .closeParen)) =
      outcome checkClose allow stack (List.replicate n (.leaf .closeParen)) := by
  induction n generalizing stack with
  | zero => exact outcomeWithin_nil h checkClose
  | succ n ih =>
    rw [List.replicate_succ, outcomeWithin_cons h, outcome_cons, step_closeParen]
    rcases stack with _ | ⟨_ | k, outer⟩
    · exact ih h
    · exact ih h
    · exact ih (Nat.le_of_succ_le h)

/-- If a node is wanting, room for `)` behind can only be wanting in a list that the last node opens. -/
theorem outcomeWithin_append_replicate (h : stack.length ≤ room) {nodes : List Node}
    (hends : outcomeWithin room checkClose allow stack nodes = .error (.grammar .unexpectedEnd))
    (n : Nat) :
    outcomeWithin room checkClose allow stack (nodes ++ List.replicate n (.leaf .closeParen)) =
        outcome checkClose allow stack (nodes ++ List.replicate n (.leaf .closeParen)) ∨
      nodes.getLast? = some (.leaf .openParen) := by
  induction nodes generalizing stack with
  | nil => exact Or.inl (outcomeWithin_replicate h n)
  | cons node rest ih =>
    rw [outcomeWithin_cons h] at hends
    rw [List.cons_append, outcomeWithin_cons h, outcome_cons]
    cases hs : step checkClose allow stack node with
    | error fault => exact Or.inl rfl
    | ok stack' =>
      rw [hs] at hends
      by_cases hroom : stack'.length ≤ room
      · refine (ih hroom hends).imp_right fun hlast => ?_
        rw [List.getLast?_cons, hlast]
        rfl
      · right
        have ho : node.isLiteral "(" = true := by
          refine Bool.eq_true_of_not_eq_false fun ho => hroom ?_
          exact Nat.le_trans (length_le_of_step ho hs) h
        rcases rest with _ | ⟨next, rest⟩
        · rw [Node.eq_leaf_of_isLiteral (by decide) ho]
          rfl
        · change outcomeWithin room checkClose allow stack' (next :: rest) = _ at hends
          rw [outcomeWithin_of_lt (Nat.lt_of_not_le hroom), Reader.starvation_cons] at hends
          cases hends

end Room

end Tally

namespace OpenLists

variable {allow : Nat → Except ReadFault Unit} {level : Nat}

/-! ### Flat sequences -/

variable [CallStack] {room : Nat}

/-- Each open list is ended by one `)`. -/
theorem outcome_replicate {n : Nat} (hn : level ≤ n) :
    outcome room allow level (List.replicate n (.leaf .closeParen)) = .ok () := by
  induction n generalizing level with
  | zero =>
    rw [Nat.le_zero.1 hn]
    exact outcome_nil allow (Nat.zero_le room)
  | succ n ih =>
    rw [List.replicate_succ, outcome_closeParen]
    exact ih (by omega)

theorem outcome_append_replicate (ha : ∀ height, allow height ≠ .error (.grammar .unexpectedEnd))
    {nodes : List Node} (h : outcome room allow level nodes = .error (.grammar .unexpectedEnd))
    {n : Nat} (hn : level + nodes.length ≤ n) :
    outcome room allow level (nodes ++ List.replicate n (.leaf .closeParen)) = .ok () := by
  induction nodes generalizing level with
  | nil => exact outcome_replicate hn
  | cons node rest ih =>
    have hreads : level ≤ room ∨ node.isLiteral ")" = true := by
      refine Classical.byContradiction fun hs => ?_
      obtain ⟨hr, hc⟩ := not_or.1 hs
      have hstarving : Cursor.atClose ⟨node :: rest, level⟩ = false :=
        Bool.eq_false_of_not_eq_true hc
      rw [outcome_of_starving allow (Nat.lt_of_not_le hr) hstarving, Reader.starvation_cons] at h
      cases h
    rw [outcome_cons allow hreads] at h
    rw [List.cons_append, outcome_cons allow hreads]
    cases hv : visit allow level node with
    | ok last =>
      have hl : last ≤ level + 1 := eq_step_of_visit allow level hv ▸ step_le level node
      rw [hv] at h
      rw [List.length_cons] at hn
      exact ih h (by omega)
    | error fault =>
      rw [hv] at h
      cases h
      exact absurd (allow_eq_error_of_visit allow level hv) (ha (level + 1))

end OpenLists

namespace Program

theorem isScannable_append_replicate {nodes : List Node} (hs : Cursor.IsScannable ⟨nodes, 0⟩)
    (n : Nat) : Cursor.IsScannable ⟨nodes ++ List.replicate n (.leaf .closeParen), 0⟩ := by
  intro node hnode
  rcases List.mem_append.1 hnode with hnode | hnode
  · exact hs node hnode
  · exact ⟨.closeParen, Or.inr (Or.inr rfl), List.eq_of_mem_replicate hnode⟩

section Bounded

variable [CallStack] {options : Options} {settings : Settings} {nodes : List Node}

theorem map_read_eq_unexpectedEnd (h : read nodes options = .error (.grammar .unexpectedEnd)) :
    (read nodes options).map (fun _ => ()) = .error (.grammar .unexpectedEnd) := by
  rw [h]
  rfl

/-- With flat sequences there is room for every `)`, as it is no expression. -/
theorem read_append_replicate_of_flat (ho : options.settings = .ok settings)
    (hf : settings.flat = true) (hs : Cursor.IsScannable ⟨nodes, 0⟩)
    (h : read nodes options = .error (.grammar .unexpectedEnd)) {n : Nat} (hn : nodes.length ≤ n) :
    ∃ tree, read (nodes ++ List.replicate n (.leaf .closeParen)) options = .ok tree := by
  have hcount := map_read_eq_unexpectedEnd h
  rw [map_read_eq_countOpen ho hf hs] at hcount
  apply exists_read_of_map_eq_ok
  rw [map_read_eq_countOpen ho hf (isScannable_append_replicate hs n)]
  exact OpenLists.outcome_append_replicate (Tally.admitted_ne_unexpectedEnd settings) hcount
    (by omega)

/-- Without flat sequences there may be no room for the first `)` if it stands for an expression, right
behind a `(`. -/
theorem read_append_replicate_of_not_flat (ho : options.settings = .ok settings)
    (hf : settings.flat = false) (hs : Cursor.IsScannable ⟨nodes, 0⟩)
    (h : read nodes options = .error (.grammar .unexpectedEnd)) {n : Nat}
    (hn : nodes.length + 1 ≤ n) :
    let completed := read (nodes ++ List.replicate n (.leaf .closeParen)) options
    (∃ tree, completed = .ok tree) ∨
      completed = .error (.grammar .overCap) ∧ nodes.getLast? = some (.leaf .openParen) := by
  intro completed
  have htally := map_read_eq_unexpectedEnd h
  rw [map_read_eq_tally ho hf hs] at htally
  -- without a bound on the room the machine comes to the same, and then to its end
  have hfree : Tally.outcome settings.checkClose (Tally.admitted settings) [] nodes =
      .error (.grammar .unexpectedEnd) := by
    rcases Tally.outcomeWithin_agrees CallStack.room settings.checkClose (Tally.admitted settings) []
      nodes with he | he
    · cases htally.symm.trans he
    · exact he.symm.trans htally
  have hends := Tally.outcome_append_replicate (Tally.admitted_ne_unexpectedEnd settings)
    Tally.settled_nil.ready hfree (by simpa using hn)
  have hread := map_read_eq_tally ho hf (isScannable_append_replicate hs n)
  rcases Tally.outcomeWithin_append_replicate (Nat.zero_le _) htally n with he | hlast
  · exact Or.inl (exists_read_of_map_eq_ok (hread.trans (he.trans hends)))
  · rcases Tally.outcomeWithin_agrees CallStack.room settings.checkClose (Tally.admitted settings) []
      (nodes ++ List.replicate n (.leaf .closeParen)) with he | he
    · exact Or.inr ⟨read_eq_error_of_map_eq_error (hread.trans he), hlast⟩
    · exact Or.inl (exists_read_of_map_eq_ok (hread.trans (he.trans hends)))

/-- Tokens for which a node is wanting are completed by so many `)`, unless the stack of calls
overflows, as it may without flat sequences behind a `(`. -/
theorem read_append_replicate (hs : Cursor.IsScannable ⟨nodes, 0⟩)
    (h : read nodes options = .error (.grammar .unexpectedEnd)) {n : Nat}
    (hn : nodes.length + 1 ≤ n) :
    let completed := read (nodes ++ List.replicate n (.leaf .closeParen)) options
    (∃ tree, completed = .ok tree) ∨ completed = .error (.grammar .overCap) ∧
      nodes.getLast? = some (.leaf .openParen) ∧
      ∀ settings, options.settings = .ok settings → settings.flat = false := by
  intro completed
  cases ho : options.settings with
  | error cause =>
    rw [read, ho] at h
    cases h
  | ok settings =>
    cases hf : settings.flat with
    | true => exact Or.inl (read_append_replicate_of_flat ho hf hs h (Nat.le_of_succ_le hn))
    | false =>
      refine (read_append_replicate_of_not_flat ho hf hs h hn).imp_right ?_
      rintro ⟨he, hlast⟩
      refine ⟨he, hlast, fun settings' hsettings => ?_⟩
      cases hsettings
      exact hf

/-- Nodes that are not read are not read with more nodes behind either, unless a node was wanting or
there was no room for one. -/
theorem read_append_of_error {fault : ReadFault} (h : read nodes options = .error fault)
    (hne : ¬ fault.IsOpen) (more : List Node) : read (nodes ++ more) options = .error fault := by
  cases ho : options.settings with
  | error cause =>
    rw [read, ho] at h ⊢
    exact h
  | ok settings =>
    rw [read_of_settings ho] at h ⊢
    cases hp : Reader.program settings ⟨nodes, 0⟩ with
    | ok tree last =>
      rw [hp] at h
      cases h
    | error fault' last =>
      rw [hp] at h
      cases h
      have hmore : Reader.program settings ⟨nodes ++ more, 0⟩ = _ :=
        Reader.programFrom_extend_of_error (Reader.isLocal_expr settings) hp hne more
      rw [hmore]

/-- A fault stays whatever nodes come behind, unless a node was wanting or the stack of calls
overflowed; and tokens for which a node is wanting are completed by any number of `)` that is greater
than theirs, unless the stack overflows then, as it may without flat sequences behind a `(`. -/
theorem read_error_final_or_incomplete (options : Options) :
    (∀ (nodes : List Node) (fault : ReadFault), read nodes options = .error fault →
      fault ≠ .grammar .unexpectedEnd → fault ≠ .grammar .overCap →
      ∀ more, read (nodes ++ more) options = .error fault) ∧
    (∀ (text : String) (tokens : List Token), Token.scan text = .ok tokens →
      read (tokens.map .leaf) options = .error (.grammar .unexpectedEnd) →
      ∀ n, tokens.length + 1 ≤ n →
        let completed := read ((tokens ++ List.replicate n Token.closeParen).map .leaf) options
        (∃ tree, completed = .ok tree) ∨ completed = .error (.grammar .overCap) ∧
          tokens.getLast? = some .openParen ∧
          ∀ settings, options.settings = .ok settings → settings.flat = false) ∧
    ∀ cause : GrammarFault, cause.message = "unexpected end of input" ↔ cause = .unexpectedEnd := by
  refine ⟨fun nodes fault h hne hcap => read_append_of_error h (not_or.2 ⟨hne, hcap⟩),
    fun text tokens hscan h n hn => ?_, fun cause => ?_⟩
  · rw [List.map_append, List.map_replicate]
    have hs := Cursor.isScannable_map_leaf (Token.isScannable_of_scan hscan) 0
    refine (read_append_replicate hs h (by rwa [List.length_map])).imp_right ?_
    rintro ⟨he, hlast, hflat⟩
    refine ⟨he, ?_, hflat⟩
    rw [List.getLast?_map, Option.map_eq_some_iff] at hlast
    obtain ⟨token, hlast, htoken⟩ := hlast
    cases htoken
    exact hlast
  · cases cause <;> decide

end Bounded

/-- In `(a (` the second `(` stands where a `)` must, and in `(a b (` a list inside of a list has no
expression yet. -/
theorem read_error_final_or_incomplete_check_close :
    let options : Options := .loose (.object [("check_close", .bool true)])
    let final : List Token := [.openParen, ⟨.identifier, "a"⟩, .openParen]
    let tokens : List Token :=
      [.openParen, ⟨.identifier, "a"⟩, ⟨.identifier, "b"⟩, .openParen]
    let completed := read ((tokens ++ List.replicate 5 Token.closeParen).map .leaf) options
    read (final.map .leaf) options = .error (.grammar .expectedClose) ∧
      read (final.map .leaf ++ [.leaf .closeParen]) options = .error (.grammar .expectedClose) ∧
      Token.scan "(a b (" = .ok tokens ∧
      read (tokens.map .leaf) options = .error (.grammar .unexpectedEnd) ∧
      ∃ tree, completed = .ok tree := by
  intro options final tokens completed
  have hfinal : read (final.map .leaf) options = .error (.grammar .expectedClose) :=
    eq_error_of_grammarFault? (by decide +kernel)
  have hscan : Token.scan "(a b (" = .ok tokens := eq_ok_of_toOption (by decide +kernel)
  have hend : read (tokens.map .leaf) options = .error (.grammar .unexpectedEnd) :=
    eq_error_of_grammarFault? (by decide +kernel)
  have hroom : grammarFault? completed = none := by decide +kernel
  obtain ⟨hstays, hcompletes, -⟩ := read_error_final_or_incomplete options
  refine ⟨hfinal, hstays _ _ hfinal (by simp) (by simp) _, hscan, hend,
    (hcompletes _ _ hscan hend 5 (by decide)).resolve_right fun h => ?_⟩
  exact absurd (hroom.symm.trans (congrArg grammarFault? h.1)) (by decide)

/-- With flat sequences 240 `(` overflow the usual stack of calls, but not with as many `)` behind them.
On a stack with room for two lists on which the end of the nodes is noticed, a node is wanting behind
three `(`, and the stack overflows with more `)` behind them than there are tokens. -/
theorem read_error_at_edge :
    let flat : Options := .loose (.object [("flat_seq", .bool true)])
    let openers : List Node := List.replicate 240 (.leaf .openParen)
    let closers : List Node := List.replicate 240 (.leaf .closeParen)
    let readOnSmall := @read { room := 2, noticesEnd := true }
    let tokens : List Token := [.openParen, .openParen, .openParen]
    ((∃ fault, read openers flat = .error fault ∧ fault.message = "max nesting depth exceeded") ∧
      ∃ tree, read (openers ++ closers) flat = .ok tree) ∧
    Token.scan "(((" = .ok tokens ∧
      (∃ fault, readOnSmall (tokens.map .leaf) (.loose .null) = .error fault ∧
        fault.message = "unexpected end of input") ∧
      ∃ fault, readOnSmall ((tokens ++ List.replicate 4 Token.closeParen).map .leaf)
        (.loose .null) = .error fault ∧ fault.message = "max nesting depth exceeded" := by
  intro flat openers closers readOnSmall tokens
  have hopeners : read openers flat = .error (.grammar .overCap) :=
    eq_error_of_grammarFault? (by decide +kernel)
  have hclosed : (read (openers ++ closers) flat).toOption.isSome = true := by decide +kernel
  have hscan : Token.scan "(((" = .ok tokens := eq_ok_of_toOption (by decide +kernel)
  have hend : readOnSmall (tokens.map .leaf) (.loose .null) = .error (.grammar .unexpectedEnd) :=
    eq_error_of_grammarFault? (by decide +kernel)
  have hoverflow : readOnSmall ((tokens ++ List.replicate 4 Token.closeParen).map .leaf)
      (.loose .null) = .error (.grammar .overCap) :=
    eq_error_of_grammarFault? (by decide +kernel)
  obtain ⟨tree, htree⟩ := Option.isSome_iff_exists.1 hclosed
  exact ⟨⟨⟨_, hopeners, rfl⟩, tree, eq_ok_of_toOption htree⟩, hscan, ⟨_, hend, rfl⟩, _, hoverflow, rfl⟩

end Program

end SexprReader
