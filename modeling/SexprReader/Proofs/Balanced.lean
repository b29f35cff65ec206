import SexprReader.Proofs.FlatReading
import SexprReader.Proofs.Limit
import SexprReader.Proofs.Tally

/-!
# Balanced programs

Tokens that are read with flat sequences are balanced: each `(` has its `)`.  Without flat sequences
a `(` may end a list, and then the parentheses behind it are paired in another way.  This file shows
that balanced tokens are read all the same, as long as no list is empty, and that lists nest no
deeper then.

The machine of `Tally` goes through the leaves of an expression as its tree tells (`IsFullExpr`).
Its stack is never higher than the lists are that are open in the flat tree, and only the innermost
list on it may have no expression yet; a `)` comes when it has one, and takes a list away.  So the
stack is no higher behind an expression than before it (`Tally.keeps_of_isFullExpr`), and empty at the
end of a program (`Tally.run_of_isFlat`).
-/

namespace SexprReader

namespace Node

/-- The node is an expression of a flat tree over scanned tokens, and no list in it is empty. -/
inductive IsFullExpr : Node → Prop
  | atom {token : Token} (h : token.IsAtom) : IsFullExpr (.tree .sexpr [.tree .atom [.leaf token]])
  | list {items : List Node} (hne : items ≠ []) (h : ∀ item ∈ items, IsFullExpr item) :
      IsFullExpr
        (.tree .sexpr [.tree .list [.leaf .openParen, .tree .seq items, .leaf .closeParen]])

theorem nesting_sexpr_list (items : List Node) :
    (tree .sexpr [tree .list [leaf .openParen, tree .seq items, leaf .closeParen]]).nesting =
      nestingAll items + 1 := by
  simp [nesting, nestingAll]
  omega

theorem IsFullExpr.nesting_pos {node : Node} (h : node.IsFullExpr) : 0 < node.nesting .sexpr := by
  cases h <;> exact nesting_tree_pos .sexpr _

/-- Around the innermost expression on a path there is a list for each expression but the outermost. -/
theorem IsFullExpr.nesting_le {node : Node} (h : node.IsFullExpr) :
    ∀ {n : Nat}, node.nesting .sexpr ≤ n + 1 → node.nesting ≤ n := by
  induction h with
  | atom => exact fun _ => by simp [nesting, nestingAll]
  | @list items hne hitems ih =>
    intro n hn
    have hn' : ∀ item ∈ items, item.nesting .sexpr ≤ n := by
      have hlist := nesting_tree_succ_le_iff.1 hn _ List.mem_cons_self
      exact (nesting_tree_le_iff (by decide)).1
        ((nesting_tree_le_iff (by decide)).1 hlist (.tree .seq items) (by simp))
    obtain ⟨first, hfirst⟩ := List.exists_mem_of_ne_nil items hne
    have hpos : 0 < n := Nat.lt_of_lt_of_le (hitems first hfirst).nesting_pos (hn' first hfirst)
    obtain ⟨m, rfl⟩ := Nat.exists_eq_succ_of_ne_zero (Nat.ne_of_gt hpos)
    rw [nesting_sexpr_list, Nat.add_le_add_iff_right, nestingAll_le_iff]
    exact fun item hi => ih item hi (hn' item hi)

/-- No `(` stands right before a `)` among the leaves. -/
def SparesEmpty (node : Node) : Prop := ¬ [Token.openParen, .closeParen] <:+: node.leaves

theorem SparesEmpty.child {category : Category} {children : List Node} {child : Node}
    (h : (tree category children).SparesEmpty) (hc : child ∈ children) : child.SparesEmpty := by
  intro hi
  apply h
  obtain ⟨before, after, rfl⟩ := List.append_of_mem hc
  rw [leaves_tree, leavesAll_append, leavesAll_cons]
  exact hi.trans ⟨leavesAll before, leavesAll after, by rw [List.append_assoc]⟩

mutual

theorem isFullExpr_of_isFlatExpr : ∀ {node : Node}, node.IsFlatExpr → node.HasScannableLeaves →
    node.SparesEmpty → node.IsFullExpr
  | _, @IsFlatExpr.atom token h, hs, _ => by
    have ht : token.IsScannable := hs token (by simp)
    exact .atom (ht.isAtom h)
  | _, .list h, hs, he =>
    isFullExpr_of_isFlatList h (hs.child List.mem_cons_self) (he.child List.mem_cons_self)

theorem isFullExpr_of_isFlatList : ∀ {node : Node}, node.IsFlatList → node.HasScannableLeaves →
    node.SparesEmpty → (Node.tree .sexpr [node]).IsFullExpr
  | _, .empty, _, he => absurd ⟨[], [], by simp⟩ he
  | _, @IsFlatList.seq items hne h, hs, he => by
    have hs' : (Node.tree .seq items).HasScannableLeaves := hs.child (by simp)
    have he' : (Node.tree .seq items).SparesEmpty := he.child (by simp)
    exact .list hne fun item hi =>
      isFullExpr_of_isFlatExpr (h item hi) (hs'.child hi) (he'.child hi)

end

/-- If no list is empty, as many lists nest in a flat tree as there are expressions around another
one. -/
theorem IsFlat.nesting_le {tree : Node} (h : tree.IsFlat) (hs : tree.HasScannableLeaves)
    (he : tree.SparesEmpty) {n : Nat} (hn : tree.nesting .sexpr ≤ n + 1) : tree.nesting ≤ n := by
  obtain ⟨children, rfl, hchildren⟩ := h
  rw [nesting_tree_le_iff (by decide)] at hn ⊢
  intro child hc
  rcases hchildren child hc with hflat | rfl
  · exact (isFullExpr_of_isFlatExpr hflat (hs.child hc) (he.child hc)).nesting_le (hn child hc)
  · exact Nat.zero_le n

end Node

namespace Tally

/-- The stack after the leaves of a node, or the fault that the machine stops with. -/
def run (checkClose : Bool) (allow : Nat → Except ReadFault Unit) (stack : List Frame)
    (tokens : List Token) : Except ReadFault (List Frame) :=
  tokens.foldlM (fun stack token => step checkClose allow stack (.leaf token)) stack

/-- Stacks of up to `n` frames are admitted. -/
def Allows (allow : Nat → Except ReadFault Unit) (n : Nat) : Prop :=
  ∀ height, 0 < height → height ≤ n → allow height = .ok ()

theorem Allows.mono {allow : Nat → Except ReadFault Unit} {m n : Nat} (h : Allows allow n)
    (hm : m ≤ n) : Allows allow m := fun height hp hh => h height hp (Nat.le_trans hh hm)

theorem allows_within {settings : Settings} {room levels : Nat} (h : settings.Admits 0 levels)
    (hr : levels ≤ room) : Allows (within room (admitted settings)) levels := by
  intro height hp hh
  rw [within, admitted, h height hp (by omega), if_neg (by omega)]
  rfl

/-! ### One token -/

/-- All lists on the stack have expressions. -/
def Settled (stack : List Frame) : Prop := ∀ frame ∈ stack, ∃ n, frame = .counted n

/-- All lists on the stack have expressions, but the innermost one need not. -/
def Ready (stack : List Frame) : Prop := Settled stack.tail

variable {allow : Nat → Except ReadFault Unit} {stack : List Frame}

theorem Settled.ready (h : Settled stack) : Ready stack :=
  fun frame hf => h frame (List.mem_of_mem_tail hf)

theorem settled_nil : Settled [] := fun _ hf => absurd hf List.not_mem_nil

theorem settled_cons {n : Nat} (h : Settled stack) : Settled (.counted n :: stack) :=
  List.forall_mem_cons.2 ⟨⟨n, rfl⟩, h⟩

theorem exists_step_atom (allow : Nat → Except ReadFault Unit) {token : Token} (ht : token.IsAtom)
    (h : Ready stack) :
    ∃ stack', step false allow stack (.leaf token) = .ok stack' ∧ Settled stack' ∧
      stack'.length = stack.length := by
  rw [step_atom _ _ ht]
  rcases stack with _ | ⟨_ | n, outer⟩
  · exact ⟨[], rfl, h, rfl⟩
  · exact ⟨_, rfl, settled_cons h, rfl⟩
  · exact ⟨_, rfl, settled_cons h, rfl⟩

theorem exists_step_openParen (h : Ready stack) (ha : allow (stack.length + 1) = .ok ()) :
    ∃ stack', step false allow stack (.leaf .openParen) = .ok stack' ∧ Ready stack' ∧
      stack'.length ≤ stack.length + 1 := by
  have enters : ∀ {outer : List Frame}, outer.length = stack.length → Settled outer →
      ∃ stack', enter allow outer = .ok stack' ∧ Ready stack' ∧
        stack'.length ≤ stack.length + 1 := by
    intro outer hl ho
    refine ⟨.empty :: outer, ?_, ho, by simp [hl]⟩
    rw [enter, hl, ha]
    rfl
  rw [step_openParen]
  rcases stack with _ | ⟨_ | _ | n, outer⟩
  · exact enters rfl h
  · exact enters rfl (settled_cons h)
  · exact ⟨outer, rfl, Settled.ready h, by simp; omega⟩
  · exact enters rfl (settled_cons h)

theorem exists_step_closeParen (allow : Nat → Except ReadFault Unit) (h : Settled stack) :
    ∃ stack', step false allow stack (.leaf .closeParen) = .ok stack' ∧ Settled stack' ∧
      stack'.length = stack.length - 1 := by
  rw [step_closeParen]
  rcases stack with _ | ⟨frame, outer⟩
  · exact ⟨[], rfl, h, rfl⟩
  · obtain ⟨⟨n, rfl⟩, ho⟩ := List.forall_mem_cons.1 h
    exact ⟨outer, rfl, ho, rfl⟩

/-! ### The leaves of an expression -/

theorem run_cons (checkClose : Bool) (token : Token) (tokens : List Token) :
    run checkClose allow stack (token :: tokens) =
      step checkClose allow stack (.leaf token) >>= fun stack => run checkClose allow stack tokens :=
  List.foldlM_cons

theorem run_append (checkClose : Bool) (before after : List Token) :
    run checkClose allow stack (before ++ after) =
      run checkClose allow stack before >>= fun stack => run checkClose allow stack after :=
  List.foldlM_append

/-- Inside of `depth` lists the machine does not stop at these tokens, behind them all lists have
expressions, and the stack is not too high. -/
def Keeps (allow : Nat → Except ReadFault Unit) (depth : Nat) (tokens : List Token) : Prop :=
  ∀ ⦃stack⦄, Ready stack → stack.length ≤ depth →
    ∃ stack', run false allow stack tokens = .ok stack' ∧ Settled stack' ∧ stack'.length ≤ depth

variable {depth : Nat}

theorem Keeps.append {before after : List Token} (h : Keeps allow depth before)
    (h' : Keeps allow depth after) : Keeps allow depth (before ++ after) := by
  intro stack hr hl
  obtain ⟨middle, hm, hs, hl⟩ := h hr hl
  obtain ⟨last, hlast, hs, hl⟩ := h' hs.ready hl
  refine ⟨last, ?_, hs, hl⟩
  rw [run_append, hm]
  exact hlast

theorem keeps_leavesAll {items : List Node} (hne : items ≠ [])
    (h : ∀ item ∈ items, Keeps allow depth item.leaves) :
    Keeps allow depth (Node.leavesAll items) := by
  induction items with
  | nil => exact absurd rfl hne
  | cons item items ih =>
    obtain ⟨hitem, hitems⟩ := List.forall_mem_cons.1 h
    rw [Node.leavesAll_cons]
    by_cases he : items = []
    · rw [he, Node.leavesAll_nil, List.append_nil]
      exact hitem
    · exact hitem.append (ih he hitems)

theorem keeps_atom {token : Token} (ht : token.IsAtom) : Keeps allow depth [token] := by
  intro stack hr hl
  obtain ⟨stack', hstep, hs, he⟩ := exists_step_atom allow ht hr
  refine ⟨stack', ?_, hs, by omega⟩
  rw [run_cons, hstep]
  rfl

/-- What is kept one list deeper is kept in parentheses. -/
theorem Keeps.parens {tokens : List Token} (h : Keeps allow (depth + 1) tokens)
    (ha : Allows allow (depth + 1)) :
    Keeps allow depth (.openParen :: tokens ++ [.closeParen]) := by
  intro stack hr hl
  obtain ⟨opened, hopen, hr, hlo⟩ := exists_step_openParen hr (ha _ (by omega) (by omega))
  obtain ⟨held, hheld, hs, hlh⟩ := h hr (by omega)
  obtain ⟨closed, hclose, hs, hlc⟩ := exists_step_closeParen allow hs
  refine ⟨closed, ?_, hs, by omega⟩
  calc run false allow stack (.openParen :: tokens ++ [.closeParen])
      = run false allow opened (tokens ++ [.closeParen]) := by
        rw [List.cons_append, run_cons, hopen]
        rfl
    _ = run false allow held [.closeParen] := by
        rw [run_append, hheld]
        rfl
    _ = .ok closed := by
        rw [run_cons, hclose]
        rfl

/-- The stack is no higher behind an expression than the lists are that are open around it. -/
theorem keeps_of_isFullExpr {node : Node} (h : node.IsFullExpr) (depth : Nat)
    (ha : Allows allow (depth + node.nesting)) : Keeps allow depth node.leaves := by
  induction h generalizing depth with
  | @atom token ht =>
    simp only [Node.leaves_tree, Node.leavesAll_cons, Node.leaves_leaf, Node.leavesAll_nil,
      List.append_nil]
    exact keeps_atom ht
  | @list items hne _ ih =>
    rw [Node.nesting_sexpr_list] at ha
    have hitems : Keeps allow (depth + 1) (Node.leavesAll items) :=
      keeps_leavesAll hne fun item hi => ih item hi (depth + 1) (ha.mono (by
        have := @Node.nesting_le_nestingAll .list items item hi
        omega))
    simpa using hitems.parens (ha.mono (by omega))

/-- At the end of a program no list is open. -/
theorem run_of_isFlat {tree : Node} (h : tree.IsFlat) (hs : tree.HasScannableLeaves)
    (he : tree.SparesEmpty) (ha : Allows allow tree.nesting) :
    run false allow [] tree.leaves = .ok [] := by
  obtain ⟨children, rfl, hchildren⟩ := h
  rw [Node.leaves_tree]
  by_cases hne : children = []
  · rw [hne, Node.leavesAll_nil]
    rfl
  have hkeeps : Keeps allow 0 (Node.leavesAll children) := by
    refine keeps_leavesAll hne fun child hc => ?_
    rcases hchildren child hc with hflat | rfl
    · have hfull := Node.isFullExpr_of_isFlatExpr hflat (hs.child hc) (he.child hc)
      refine keeps_of_isFullExpr hfull 0 (ha.mono ?_)
      rw [Nat.zero_add]
      exact Node.nesting_le_of_mem hc
    · intro stack _ hl
      rw [List.eq_nil_of_length_eq_zero (Nat.le_zero.1 hl), Node.stray, Node.leaves_tree_singleton,
        Node.leaves_leaf]
      exact ⟨[], rfl, settled_nil, Nat.le_refl _⟩
  obtain ⟨stack, hrun, -, hl⟩ := hkeeps settled_nil.ready (Nat.le_refl _)
  rw [hrun, List.eq_nil_of_length_eq_zero (Nat.le_zero.1 hl)]

theorem outcome_of_run {checkClose : Bool} {tokens : List Token} :
    outcome checkClose allow stack (tokens.map .leaf) =
      run checkClose allow stack tokens >>= fun stack => outcome checkClose allow stack [] := by
  rw [outcome, List.foldlM_map]
  rfl

end Tally

namespace Program

section Bounded

variable [CallStack] {options : Options} {tree : Node}

/-- The leaves of a flat tree without empty lists are read without flat sequences, if the limit admits
as many levels as lists nest in the flat tree. -/
theorem exists_read_of_isFlat {settings : Settings} (ho : options.settings = .ok settings)
    (hc : settings.checkClose = false) (hf : settings.flat = false) (h : tree.IsFlat)
    (hs : tree.HasScannableLeaves) (he : tree.SparesEmpty) (ha : settings.Admits 0 tree.nesting)
    (hn : tree.nesting ≤ CallStack.room) :
    ∃ tree', read (tree.leaves.map .leaf) options = .ok tree' := by
  have hrun := Tally.run_of_isFlat h hs he (Tally.allows_within ha hn)
  refine exists_read_of_map_eq_ok
    (map_read_eq_of_outcome ho hf (Cursor.isScannable_map_leaf hs 0) ?_ nofun)
  rw [hc, Tally.outcome_of_run, hrun]
  rfl

/-- Tokens that are read with flat sequences, and in which no `(` stands right before a `)`, are read
without flat sequences under the same limit, to a tree with the same leaves in which lists nest no
deeper. -/
theorem exists_read_of_read_flat {text : String} {tokens : List Token}
    (h : Token.scan text = .ok tokens) (he : ¬ [Token.openParen, .closeParen] <:+: tokens)
    (checkClose : Bool) (limit : Value) {flat chained : Options}
    (hf : flat.settings = .ok { checkClose, flat := true, maxDepth := limit })
    (hc : chained.settings = .ok { maxDepth := limit }) {flatTree : Node}
    (hr : read (tokens.map .leaf) flat = .ok flatTree) :
    ∃ tree, read (tokens.map .leaf) chained = .ok tree ∧ tree.leaves = tokens ∧
      tree.nesting ≤ flatTree.nesting := by
  obtain ⟨hflat, hx⟩ := isFlat_of_read rfl hf hr
  have hl : flatTree.leaves = tokens := leaves_of_read_tokens hr
  subst hl
  have hs : flatTree.HasScannableLeaves := Token.isScannable_of_scan h
  have hn : flatTree.nesting ≤ CallStack.room := hflat.nesting_le hs he hx
  -- the flat tree is admitted by the limit, and by its own nesting as one
  obtain ⟨tree, ht⟩ := exists_read_of_isFlat hc rfl rfl hflat hs he (admits_of_read hf hr) hn
  have ho : Options.settings (.ready { maxDepth := .int flatTree.nesting }) =
      .ok { maxDepth := .int flatTree.nesting } := rfl
  obtain ⟨tree', ht'⟩ :=
    exists_read_of_isFlat ho rfl rfl hflat hs he
      ((Settings.admits_int_iff rfl).2 (Nat.le_refl _)) hn
  -- without a limit the tokens have one tree
  have hfree : Options.settings (.ready {}) = .ok {} := rfl
  obtain ⟨hread, -⟩ := (read_eq_ok_iff_admits hc hfree).1 ht
  obtain ⟨hread', ha⟩ := (read_eq_ok_iff_admits ho hfree).1 ht'
  have heq : tree = tree' := Except.ok.inj (hread.symm.trans hread')
  exact ⟨tree, ht, leaves_of_read_tokens ht, heq ▸ (Settings.admits_int_iff rfl).1 ha⟩

end Bounded

/-- In `(a (b) c)` the second `(` ends the list that the first one opens. -/
theorem exists_read_of_read_flat_open_as_closer :
    let tokens : List Token :=
      [.openParen, ⟨.identifier, "a"⟩, .openParen, ⟨.identifier, "b"⟩, .closeParen,
        ⟨.identifier, "c"⟩, .closeParen]
    let flat : Options := .loose (.object [("flat_seq", .bool true), ("max_depth", .int 2)])
    let chained : Options := .loose (.object [("max_depth", .int 2)])
    let atom (text : String) : Node := .tree .sexpr [.tree .atom [.leaf ⟨.identifier, text⟩]]
    let list (items : List Node) : Node := .tree .sexpr
      [.tree .list [.leaf .openParen, .tree .seq items, .leaf .closeParen]]
    let flatTree : Node := .tree .program [list [atom "a", list [atom "b"], atom "c"]]
    read (tokens.map .leaf) flat = .ok flatTree ∧
      ∃ tree, read (tokens.map .leaf) chained = .ok tree ∧ tree.leaves = tokens ∧
        tree.nesting ≤ flatTree.nesting := by
  intro tokens flat chained atom list flatTree
  have hscan : Token.scan "(a (b) c)" = .ok tokens := eq_ok_of_toOption (by decide +kernel)
  have hspares : ¬ [Token.openParen, .closeParen] <:+: tokens := by decide
  have hread : read (tokens.map .leaf) flat = .ok flatTree :=
    eq_ok_of_toOption (by decide +kernel)
  exact ⟨hread, exists_read_of_read_flat hscan hspares false (.int 2) rfl rfl hread⟩

end Program

end SexprReader
