import SexprReader.Proofs.Balanced
import SexprReader.Proofs.Flatten

/-!
# Where the two kinds of sequences agree

With chained sequences and lists that must end at a `)`, a `(` opens a list as long as some sequence
could still get an extra one, and else reading stops.  Each atom behind the first expression of a list
lets in one list more.  This file shows that tokens are read so just where they are read with flat
sequences and in each body of the flat tree the atoms lead (`Node.AtomsLead`): before each list that
is not the first expression there are more atoms than lists, the first expression not counted.

The leaves of a flat tree take the machine of `Tally` through the same lists.  Inside of a list its
number is by how much the atoms lead, and it stops at the first list before which they do not
(`Tally.Decides`).  The chained tree is then the one that is flattened to the flat tree
(`Program.read_flatten_of_read`).
-/

namespace SexprReader

namespace Node

/-- The expression holds an atom. -/
def holdsAtom : Node → Bool
  | tree .sexpr [tree .atom _] => true
  | _ => false

/-- The expression holds a list. -/
def holdsList : Node → Bool
  | tree .sexpr [tree .list _] => true
  | _ => false

/-- For each list among the expressions, the lists before it are fewer than `n` and the atoms before
it together. -/
def LeadsBy (n : Nat) (items : List Node) : Prop :=
  ∀ before item after, items = before ++ item :: after → item.holdsList = true →
    before.countP holdsList < n + before.countP holdsAtom

/-- In the body of each list the atoms behind the first expression lead. -/
inductive AtomsLead : Node → Prop
  | leaf (token : Token) : AtomsLead (.leaf token)
  | tree {category : Category} {children : List Node}
      (hb : category = .list → ∀ items, .tree .seq items ∈ children → LeadsBy 0 items.tail)
      (h : ∀ child ∈ children, AtomsLead child) : AtomsLead (.tree category children)

/-! ### How far the atoms lead -/

theorem leadsBy_nil (n : Nat) : LeadsBy n [] := by
  intro before item after h
  simp at h

/-- What is asked of the first expression, and of those behind it. -/
theorem leadsBy_cons_iff {n : Nat} {item : Node} {items : List Node} :
    LeadsBy n (item :: items) ↔ (item.holdsList = true → 0 < n) ∧
      ∀ before other after, items = before ++ other :: after → other.holdsList = true →
        (item :: before).countP holdsList < n + (item :: before).countP holdsAtom := by
  constructor
  · intro h
    refine ⟨fun hi => by simpa using h [] item items rfl hi, fun before other after he ho => ?_⟩
    exact h (item :: before) other after (by rw [he, List.cons_append]) ho
  · rintro ⟨hfirst, h⟩ (_ | ⟨first, before⟩) other after he ho
    · cases he
      simpa using hfirst ho
    · cases he
      exact h before other after rfl ho

/-- An atom lets in one list more. -/
theorem leadsBy_cons_atom {n : Nat} {item : Node} (ha : item.holdsAtom = true)
    (hl : item.holdsList = false) {items : List Node} :
    LeadsBy n (item :: items) ↔ LeadsBy (n + 1) items := by
  rw [leadsBy_cons_iff]
  simp only [hl, ha, List.countP_cons, Bool.false_eq_true, false_implies, true_and, if_false, if_true,
    Nat.add_zero, LeadsBy, Nat.add_assoc, Nat.add_comm 1]

/-- A list is one of those that are let in. -/
theorem leadsBy_cons_list {n : Nat} {item : Node} (ha : item.holdsAtom = false)
    (hl : item.holdsList = true) {items : List Node} :
    LeadsBy (n + 1) (item :: items) ↔ LeadsBy n items := by
  rw [leadsBy_cons_iff]
  simp only [hl, ha, List.countP_cons, Bool.false_eq_true, if_false, if_true, Nat.zero_lt_succ,
    implies_true, true_and, Nat.add_zero, LeadsBy]
  refine forall_congr' fun before => forall_congr' fun other => forall_congr' fun after => ?_
  rw [Nat.add_right_comm n 1, Nat.add_lt_add_iff_right]

theorem not_leadsBy_zero_cons_list {item : Node} (hl : item.holdsList = true) (items : List Node) :
    ¬ LeadsBy 0 (item :: items) := fun h => absurd ((leadsBy_cons_iff.1 h).1 hl) (by decide)

theorem atomsLead_tree {category : Category} {children : List Node} :
    (tree category children).AtomsLead ↔
      (category = .list → ∀ items, tree .seq items ∈ children → LeadsBy 0 items.tail) ∧
        ∀ child ∈ children, child.AtomsLead := by
  constructor
  · intro h
    cases h with
    | tree hb h => exact ⟨hb, h⟩
  · rintro ⟨hb, h⟩
    exact .tree hb h

theorem atomsLead_atom (token : Token) :
    (tree .sexpr [tree .atom [leaf token]]).AtomsLead := by
  simp [atomsLead_tree, AtomsLead.leaf]

theorem atomsLead_list (items : List Node) :
    (tree .sexpr [tree .list [leaf .openParen, tree .seq items, leaf .closeParen]]).AtomsLead ↔
      LeadsBy 0 items.tail ∧ ∀ item ∈ items, item.AtomsLead := by
  simp [atomsLead_tree, AtomsLead.leaf]

end Node

namespace Tally

variable {allow : Nat → Except ReadFault Unit} {stack stack' : List Frame}

/-! ### Two ways for the machine to go -/

/-- If the condition holds, the tokens take the machine from one stack to the other, and else it
stops at them for want of a `)`. -/
structure Decides (allow : Nat → Except ReadFault Unit) (p : Prop) (tokens : List Token)
    (stack stack' : List Frame) : Prop where
  goes : p → run true allow stack tokens = .ok stack'
  stops : ¬ p → run true allow stack tokens = .error (.grammar .expectedClose)

theorem Decides.congr {p q : Prop} {tokens : List Token} (h : Decides allow p tokens stack stack')
    (hpq : p ↔ q) : Decides allow q tokens stack stack' := propext hpq ▸ h

/-- One part of the tokens after the other. -/
theorem Decides.append {p q : Prop} {before after : List Token} {last : List Frame}
    (h : Decides allow p before stack stack') (h' : Decides allow q after stack' last) :
    Decides allow (p ∧ q) (before ++ after) stack last where
  goes hpq := by
    rw [run_append, h.goes hpq.1]
    exact h'.goes hpq.2
  stops hpq := by
    rw [run_append]
    by_cases hp : p
    · rw [h.goes hp]
      exact h'.stops fun hq => hpq ⟨hp, hq⟩
    · rw [h.stops hp]
      rfl

theorem Decides.cons {p : Prop} {token : Token} {tokens : List Token} {last : List Frame}
    (hstep : step true allow stack (.leaf token) = .ok stack')
    (h : Decides allow p tokens stack' last) : Decides allow p (token :: tokens) stack last := by
  have hrun : run true allow stack (token :: tokens) = run true allow stack' tokens := by
    rw [run_cons, hstep]
    rfl
  exact ⟨fun hp => hrun.trans (h.goes hp), fun hp => hrun.trans (h.stops hp)⟩

theorem decides_nil (stack : List Frame) : Decides allow True [] stack stack :=
  ⟨fun _ => rfl, fun h => absurd trivial h⟩

/-- An expression, and what else is asked behind it. -/
theorem Decides.append_and {p q r : Prop} {before after : List Token} {last : List Frame}
    (h : Decides allow r before stack stack') (h' : Decides allow (p ∧ q) after stack' last) :
    Decides allow (p ∧ r ∧ q) (before ++ after) stack last :=
  (h.append h').congr and_left_comm

/-- A node over one token without a list. -/
theorem decides_token {node : Node} {token : Token} (hl : node.leaves = [token])
    (hlead : node.AtomsLead) (hstep : step true allow stack (.leaf token) = .ok stack') :
    Decides allow node.AtomsLead node.leaves stack stack' := by
  rw [hl]
  exact (Decides.cons hstep (decides_nil stack')).congr (iff_of_true trivial hlead)

theorem decides_atom {token : Token} (hstep : step true allow stack (.leaf token) = .ok stack') :
    Decides allow (Node.tree .sexpr [.tree .atom [.leaf token]]).AtomsLead
      (Node.tree .sexpr [.tree .atom [.leaf token]]).leaves stack stack' :=
  decides_token (by simp) (Node.atomsLead_atom token) hstep

theorem decides_of_error {p : Prop} (hp : ¬ p) {tokens : List Token}
    (h : run true allow stack tokens = .error (.grammar .expectedClose)) (last : List Frame) :
    Decides allow p tokens stack last :=
  ⟨fun h => absurd h hp, fun _ => h⟩

/-! ### One expression -/

/-- `Opens stack outer` says that a `(` opens a list on top of `outer`. -/
inductive Opens : List Frame → List Frame → Prop
  | top : Opens [] []
  | first (outer : List Frame) : Opens (.empty :: outer) (.counted 0 :: outer)
  | later (n : Nat) (outer : List Frame) : Opens (.counted (n + 1) :: outer) (.counted n :: outer)

theorem step_of_opens {outer : List Frame} (h : Opens stack outer)
    (ha : allow (outer.length + 1) = .ok ()) :
    step true allow stack (.leaf .openParen) = .ok (.empty :: outer) := by
  have he : step true allow stack (.leaf .openParen) = enter allow outer := by
    cases h <;> rfl
  rw [he, enter, ha]
  rfl

/-- The leaves of the node take the machine to where a list was opened if the atoms lead in it. -/
def DecidesList (allow : Nat → Except ReadFault Unit) (node : Node) : Prop :=
  ∀ ⦃stack outer⦄, Opens stack outer →
    Allows allow (outer.length + node.nesting) →
      Decides allow node.AtomsLead node.leaves stack outer

/-- Behind the first expression of a list, the number of its frame is by how much the atoms lead. -/
theorem decides_items {items : List Node}
    (h : ∀ item ∈ items, item.IsFullExpr ∧ (item.holdsList = true → DecidesList allow item))
    (n : Nat) (outer : List Frame)
    (ha : Allows allow (outer.length + 1 + Node.nestingAll items)) :
    Decides allow (Node.LeadsBy n items ∧ ∀ item ∈ items, item.AtomsLead)
      (Node.leavesAll items ++ [.closeParen]) (.counted n :: outer) outer := by
  induction items generalizing n with
  | nil =>
    have hstep : step true allow (.counted n :: outer) (.leaf .closeParen) = .ok outer := rfl
    rw [Node.leavesAll_nil, List.nil_append]
    refine (Decides.cons hstep (decides_nil outer)).congr ?_
    simpa using Node.leadsBy_nil n
  | cons item items ih =>
    obtain ⟨⟨hfull, hlist⟩, hitems⟩ := List.forall_mem_cons.1 h
    have hrest : ∀ m, Decides allow (Node.LeadsBy m items ∧ ∀ item ∈ items, item.AtomsLead)
        (Node.leavesAll items ++ [.closeParen]) (.counted m :: outer) outer := by
      refine fun m => ih hitems m (ha.mono ?_)
      rw [Node.nestingAll]
      omega
    rw [Node.leavesAll_cons, List.append_assoc, List.forall_mem_cons]
    cases hfull with
    | @atom token ht =>
      rw [Node.leadsBy_cons_atom rfl rfl]
      exact (decides_atom (step_atom _ _ ht _)).append_and (hrest (n + 1))
    | @list held hne hheld =>
      cases n with
      | zero =>
        refine decides_of_error (fun hp => Node.not_leadsBy_zero_cons_list rfl items hp.1) ?_ outer
        simp only [Node.leaves_tree, Node.leavesAll_cons, Node.leaves_leaf, List.cons_append,
          List.nil_append]
        rfl
      | succ n =>
        have hd := hlist rfl (.later n outer) (ha.mono (by
          rw [Node.nestingAll, List.length_cons]
          omega))
        rw [Node.leadsBy_cons_list rfl rfl]
        exact hd.append_and (hrest n)

/-- The first expression of a list is let in whatever it is. -/
theorem decides_body {items : List Node} (hne : items ≠ [])
    (h : ∀ item ∈ items, item.IsFullExpr ∧ (item.holdsList = true → DecidesList allow item))
    (outer : List Frame)
    (ha : Allows allow (outer.length + 1 + Node.nestingAll items)) :
    Decides allow (Node.LeadsBy 0 items.tail ∧ ∀ item ∈ items, item.AtomsLead)
      (Node.leavesAll items ++ [.closeParen]) (.empty :: outer) outer := by
  cases items with
  | nil => exact absurd rfl hne
  | cons item items =>
    obtain ⟨⟨hfull, hlist⟩, hitems⟩ := List.forall_mem_cons.1 h
    have hrest := decides_items hitems 0 outer (ha.mono (by
      rw [Node.nestingAll]
      omega))
    rw [Node.leavesAll_cons, List.append_assoc, List.forall_mem_cons, List.tail_cons]
    cases hfull with
    | @atom token ht =>
      exact (decides_atom (step_atom _ _ ht _)).append_and hrest
    | @list held hne hheld =>
      have hd := hlist rfl (.first outer) (ha.mono (by
        rw [Node.nestingAll, List.length_cons]
        omega))
      exact hd.append_and hrest

theorem decidesList_of_isFullExpr {node : Node} (h : node.IsFullExpr) :
    node.holdsList = true → DecidesList allow node := by
  induction h with
  | atom => intro hl; cases hl
  | @list items hne hitems ih =>
    intro _ stack outer ho ha
    rw [Node.nesting_sexpr_list] at ha
    have hbody := decides_body hne (fun item hi => ⟨hitems item hi, ih item hi⟩) outer
      (ha.mono (by omega))
    have hopen := step_of_opens ho (ha _ (by omega) (by omega))
    simpa using (Decides.cons hopen hbody).congr (Node.atomsLead_list items).symm

/-- Outside of all lists, an expression takes the machine back to where it was. -/
theorem decides_top {node : Node} (h : node.IsFullExpr)
    (ha : Allows allow node.nesting) : Decides allow node.AtomsLead node.leaves [] [] := by
  have hlist : node.holdsList = true → DecidesList allow node := decidesList_of_isFullExpr h
  cases h with
  | atom ht => exact decides_atom (step_atom _ _ ht [])
  | list =>
    refine hlist rfl .top ?_
    rwa [List.length_nil, Nat.zero_add]

theorem decides_leavesAll {nodes : List Node}
    (h : ∀ node ∈ nodes, Decides allow node.AtomsLead node.leaves stack stack) :
    Decides allow (∀ node ∈ nodes, node.AtomsLead) (Node.leavesAll nodes) stack stack := by
  induction nodes with
  | nil =>
    rw [Node.leavesAll_nil]
    exact (decides_nil stack).congr (by simp)
  | cons node nodes ih =>
    obtain ⟨hnode, hnodes⟩ := List.forall_mem_cons.1 h
    rw [Node.leavesAll_cons, List.forall_mem_cons]
    exact hnode.append (ih hnodes)

/-- The leaves of a flat tree take the machine to its end if the atoms lead. -/
theorem decides_of_isFlat {tree : Node} (h : tree.IsFlat) (hs : tree.HasScannableLeaves)
    (he : tree.SparesEmpty) (ha : Allows allow tree.nesting) :
    Decides allow tree.AtomsLead tree.leaves [] [] := by
  obtain ⟨children, rfl, hchildren⟩ := h
  have hdecides : ∀ child ∈ children, Decides allow child.AtomsLead child.leaves [] [] := by
    intro child hc
    rcases hchildren child hc with hflat | rfl
    · have hfull := Node.isFullExpr_of_isFlatExpr hflat (hs.child hc) (he.child hc)
      exact decides_top hfull (ha.mono (Node.nesting_le_of_mem hc))
    · have hlead : Node.stray.AtomsLead := by
        simp [Node.stray, Node.atomsLead_tree, Node.AtomsLead.leaf]
      have hleaves : Node.stray.leaves = [.closeParen] := by simp [Node.stray]
      exact decides_token hleaves hlead rfl
  rw [Node.leaves_tree]
  exact (decides_leavesAll hdecides).congr (by simp [Node.atomsLead_tree])

end Tally

namespace Program

/-- The leaves of a flat tree without empty lists are read without flat sequences, each list up to a
`)`, if the atoms lead, and else a `)` is missing. -/
theorem read_leaves_of_isFlat_checkClose [CallStack] {settings : Settings} {options : Options}
    (ho : options.settings = .ok settings) (hc : settings.checkClose = true)
    (hf : settings.flat = false) {tree : Node} (h : tree.IsFlat) (hs : tree.HasScannableLeaves)
    (he : tree.SparesEmpty) (ha : settings.Admits 0 tree.nesting)
    (hn : tree.nesting ≤ CallStack.room) :
    (tree.AtomsLead → ∃ tree', read (tree.leaves.map .leaf) options = .ok tree') ∧
      (¬ tree.AtomsLead →
        read (tree.leaves.map .leaf) options = .error (.grammar .expectedClose)) := by
  have hdecides := Tally.decides_of_isFlat h hs he (Tally.allows_within ha hn)
  have hscan := Cursor.isScannable_map_leaf hs 0
  constructor
  · intro hlead
    refine exists_read_of_map_eq_ok (map_read_eq_of_outcome ho hf hscan ?_ nofun)
    rw [hc, Tally.outcome_of_run, hdecides.goes hlead]
    rfl
  · intro hlead
    refine read_eq_error_of_map_eq_error (map_read_eq_of_outcome ho hf hscan ?_ nofun)
    rw [hc, Tally.outcome_of_run, hdecides.stops hlead]
    rfl

/-- Tokens in which no `(` stands right before a `)` are read without flat sequences, each list up to
a `)`, just where they are read with flat sequences and the atoms lead, under the same limit.  The
flat tree is the other one flattened then, and where the atoms do not lead a `)` is missing. -/
theorem read_checkClose_iff_atomsLead [CallStack] {text : String} {tokens : List Token}
    (h : Token.scan text = .ok tokens) (he : ¬ [Token.openParen, .closeParen] <:+: tokens)
    (checkClose : Bool) (limit : Value) {chained flat : Options}
    (hc : chained.settings = .ok { checkClose := true, maxDepth := limit })
    (hf : flat.settings = .ok { checkClose, flat := true, maxDepth := limit }) :
    ((∃ tree, read (tokens.map .leaf) chained = .ok tree) ↔
      ∃ flatTree, read (tokens.map .leaf) flat = .ok flatTree ∧ flatTree.AtomsLead) ∧
    (∀ tree flatTree, read (tokens.map .leaf) chained = .ok tree →
      read (tokens.map .leaf) flat = .ok flatTree → flatTree = tree.flatten) ∧
    (∀ flatTree, read (tokens.map .leaf) flat = .ok flatTree → ¬ flatTree.AtomsLead →
      read (tokens.map .leaf) chained = .error (.grammar .expectedClose)) ∧
    GrammarFault.expectedClose.message = "expected ')'" := by
  have hs := Token.isScannable_of_scan h
  have hflatten : ∀ tree, read (tokens.map .leaf) chained = .ok tree →
      read (tokens.map .leaf) flat = .ok tree.flatten := fun tree =>
    read_flatten_of_read hc rfl rfl checkClose hf hs he
  have hmachine : ∀ flatTree, read (tokens.map .leaf) flat = .ok flatTree →
      (flatTree.AtomsLead → ∃ tree, read (tokens.map .leaf) chained = .ok tree) ∧
        (¬ flatTree.AtomsLead →
          read (tokens.map .leaf) chained = .error (.grammar .expectedClose)) := by
    intro flatTree hr
    obtain ⟨hflat, hx⟩ := isFlat_of_read rfl hf hr
    have hl : flatTree.leaves = tokens := leaves_of_read_tokens hr
    subst hl
    have hn : flatTree.nesting ≤ CallStack.room := hflat.nesting_le hs he hx
    exact read_leaves_of_isFlat_checkClose hc rfl rfl hflat hs he (admits_of_read hf hr) hn
  refine ⟨⟨?_, ?_⟩, ?_, fun flatTree hr => (hmachine flatTree hr).2, rfl⟩
  · rintro ⟨tree, ht⟩
    refine ⟨tree.flatten, hflatten tree ht, ?_⟩
    -- if the atoms did not lead, there would be no chained tree
    refine Classical.byContradiction fun hlead => ?_
    rw [(hmachine _ (hflatten tree ht)).2 hlead] at ht
    cases ht
  · rintro ⟨flatTree, hr, hlead⟩
    exact (hmachine flatTree hr).1 hlead
  · intro tree flatTree ht hr
    exact Except.ok.inj (hr.symm.trans (hflatten tree ht))

/-- In `(a b (c))` the atom `b` lets in a list, and in `(a (b))` none does. -/
theorem read_checkClose_iff_atomsLead_second :
    let chained : Options := .loose (.object [("check_close", .bool true), ("max_depth", .int 2)])
    let flat : Options := .loose (.object [("flat_seq", .bool true), ("max_depth", .int 2)])
    let atom (text : String) : Node := .tree .sexpr [.tree .atom [.leaf ⟨.identifier, text⟩]]
    let list (items : List Node) : Node :=
      .tree .sexpr [.tree .list [.leaf .openParen, .tree .seq items, .leaf .closeParen]]
    let tree : Node := .tree .program
      [list [atom "a", .tree .seq [atom "b"], .tree .seq [list [atom "c"]]]]
    let flatTree : Node := .tree .program [list [atom "a", atom "b", list [atom "c"]]]
    let stopped : Node := .tree .program [list [atom "a", list [atom "b"]]]
    (read (flatTree.leaves.map .leaf) chained = .ok tree ∧
      read (flatTree.leaves.map .leaf) flat = .ok flatTree ∧ flatTree = tree.flatten ∧
      flatTree.AtomsLead) ∧
    read (stopped.leaves.map .leaf) flat = .ok stopped ∧ ¬ stopped.AtomsLead ∧
      read (stopped.leaves.map .leaf) chained = .error (.grammar .expectedClose) := by
  intro chained flat atom list tree flatTree stopped
  have hread : read (flatTree.leaves.map .leaf) chained = .ok tree :=
    eq_ok_of_toOption (by decide +kernel)
  have hflat : read (flatTree.leaves.map .leaf) flat = .ok flatTree :=
    eq_ok_of_toOption (by decide +kernel)
  have hstopped : read (stopped.leaves.map .leaf) flat = .ok stopped :=
    eq_ok_of_toOption (by decide +kernel)
  have hscan : Token.scan "(a b (c))" = .ok flatTree.leaves := eq_ok_of_toOption (by decide +kernel)
  have hscan' : Token.scan "(a (b))" = .ok stopped.leaves := eq_ok_of_toOption (by decide +kernel)
  have hc : chained.settings = .ok { checkClose := true, maxDepth := .int 2 } := rfl
  have hf : flat.settings = .ok { checkClose := false, flat := true, maxDepth := .int 2 } := rfl
  have hlead : ¬ stopped.AtomsLead := by
    intro h
    have hbody : (list [atom "a", list [atom "b"]]).AtomsLead :=
      (Node.atomsLead_tree.1 h).2 _ List.mem_cons_self
    exact Node.not_leadsBy_zero_cons_list rfl [] ((Node.atomsLead_list _).1 hbody).1
  obtain ⟨hiff, hflatten, -⟩ :=
    read_checkClose_iff_atomsLead hscan (by decide +kernel) false (.int 2) hc hf
  obtain ⟨-, -, hstops, -⟩ :=
    read_checkClose_iff_atomsLead hscan' (by decide +kernel) false (.int 2) hc hf
  obtain ⟨other, hother, hleads⟩ := hiff.1 ⟨tree, hread⟩
  cases hflat.symm.trans hother
  exact ⟨⟨hread, hflat, hflatten tree flatTree hread hflat, hleads⟩, hstopped, hlead,
    hstops stopped hstopped hlead⟩

end Program

end SexprReader
