import SexprReader.Program
import SexprReader.Proofs.ChainRule
import SexprReader.Proofs.Grammar

/-!
# Reading by the default settings

Reading tokens by the default settings gives exactly the trees of the grammar: what is read is a
program in the sense of `Node.IsProgram`, and each program is read back from its own leaves.  Since
reading is a function, the tokens of a program have no second tree.

One direction follows the runs of a chained sequence (`ChainRun`), the other one the derivation of
the tree.  In both the token behind a body is kept, because it decides the shape of the body.
-/

namespace SexprReader

namespace Reader

/-! ### What is read is of the grammar -/

/-- The first leaf of a result is the first token read. -/
theorem head?_leaves_of_lossless {reader : Reader Node} (hl : Lossless reader)
    (hc : Consumes reader) {cursor later : Cursor} {node : Node} {token : Token} {rest : List Node}
    (h : reader cursor = .ok node later) (hr : cursor.rest = .leaf token :: rest) :
    node.leaves.head? = some token := by
  obtain ⟨taken, ht, -, hn⟩ := hl h
  have hlt := hc h
  rw [hr] at ht
  rcases taken with _ | ⟨first, taken⟩
  · rw [List.nil_append] at ht
    rw [hr, ht] at hlt
    exact absurd hlt (Nat.lt_irrefl _)
  · rw [List.cons_append, List.cons.injEq] at ht
    rw [hn, ← ht.1, Node.leavesAll_cons, Node.leaves_leaf]
    rfl

/-- A node of the three kinds that ends sequences is a parenthesis. -/
theorem isParen_of_endsSeq {node : Node} {rest : List Node} {depth : Nat}
    (hs : Cursor.IsScannable ⟨node :: rest, depth⟩) (he : node.endsSeq = true) :
    ∃ closer : Token, (closer = .openParen ∨ closer = .closeParen) ∧ node = .leaf closer := by
  rcases hs.head with ⟨token, ha, rfl⟩ | rfl | rfl
  · rw [ha.endsSeq] at he
    cases he
  · exact ⟨_, Or.inl rfl, rfl⟩
  · exact ⟨_, Or.inr rfl, rfl⟩

/-- A node of the three kinds that does not end sequences begins an atom. -/
theorem isAtom_of_not_endsSeq {node : Node} {rest : List Node} {depth : Nat}
    (hs : Cursor.IsScannable ⟨node :: rest, depth⟩) (he : node.endsSeq = false) :
    ∃ token : Token, token.IsAtom ∧ node = .leaf token := by
  rcases hs.head with h | rfl | rfl
  · exact h
  · cases he
  · cases he

variable {item : Item} {room : Nat}

/-- The expressions that an item reads are of the grammar, and they nest at most `room` lists. -/
def ReadsExprs (item : Item) (room : Nat) : Prop :=
  Lossless item.read ∧ ∀ ⦃cursor node later⦄, cursor.IsScannable →
    item.read cursor = .ok node later → node.IsExpr ∧ node.nesting ≤ room

theorem isBodyBefore_of_chainRun (hx : ReadsExprs item room) {cursor last : Cursor} {body : Node}
    (h : ChainRun item cursor body last) (hs : cursor.IsScannable) :
    ∃ closer rest, (closer = .openParen ∨ closer = .closeParen) ∧
      last.rest = .leaf closer :: rest ∧ Node.IsBodyBefore closer body ∧ body.nesting ≤ room := by
  have starts : ∀ {cursor later : Cursor} {inner : Node} {token : Token} {rest : List Node},
      ChainRun item cursor inner later → cursor.rest = .leaf token :: rest →
        inner.leaves.head? = some token := fun h hr =>
    head?_leaves_of_lossless (lossless_chainSeq hx.1) (consumes_chainSeq item) h.chainSeq_eq_ok hr
  induction h with
  | @single cursor last head next rest hi hr he =>
    obtain ⟨hh, hd⟩ := hx.2 hs hi
    obtain ⟨_, depth⟩ := last
    cases hr
    obtain ⟨closer, hc, rfl⟩ := isParen_of_endsSeq (hs.of_takes hx.1 hi) he
    refine ⟨closer, rest, hc, rfl, .single hh, ?_⟩
    simpa [Node.nesting_tree_le_iff] using hd
  | @nested cursor later last head next inner stop rest rest' hi hr he hc hs' ho ih =>
    obtain ⟨hh, hd⟩ := hx.2 hs hi
    have hl := hs.of_takes hx.1 hi
    obtain ⟨closer, rest₂, hcl, hr₂, hb, hd₂⟩ := ih hl
    obtain ⟨_, depth⟩ := later
    cases hr
    obtain ⟨token, ha, rfl⟩ := isAtom_of_not_endsSeq hl he
    rw [hs', List.cons.injEq] at hr₂
    -- the body ends before a `)`, as there would be an extra one before a `(`
    have hclose : closer = .closeParen := by
      rcases hcl with rfl | rfl
      · rw [hr₂.1] at ho
        cases ho
      · rfl
    subst hclose
    refine ⟨.closeParen, rest', Or.inr rfl, by rw [hs', hr₂.1], ?_, ?_⟩
    · exact .nested hh ⟨token, starts hc rfl, ha.1⟩ hb
    · simpa [Node.nesting_tree_le_iff] using ⟨hd, hd₂⟩
  | @extra cursor later later' last head next inner stop extra rest rest' hi hr he hc hs' ho hx'
      ih ihx =>
    obtain ⟨hh, hd⟩ := hx.2 hs hi
    have hl := hs.of_takes hx.1 hi
    obtain ⟨closer₁, rest₁, -, hr₁, hb₁, hd₁⟩ := ih hl
    have hl' := hl.of_takes (lossless_chainSeq hx.1) hc.chainSeq_eq_ok
    obtain ⟨closer, rest₂, hcl, hr₂, hb₂, hd₂⟩ := ihx hl'
    obtain ⟨_, depth⟩ := later
    cases hr
    obtain ⟨token, ha, rfl⟩ := isAtom_of_not_endsSeq hl he
    rw [Node.eq_leaf_of_isLiteral (by decide) ho] at hs'
    rw [hs', List.cons.injEq, Node.leaf.injEq] at hr₁
    have hopen : closer₁ = .openParen := hr₁.1.symm
    subst hopen
    refine ⟨closer, rest₂, hcl, hr₂, ?_, ?_⟩
    · exact .extra hh ⟨token, starts hc rfl, ha.1⟩ hb₁ (starts hx' hs') hb₂
    · simpa [Node.nesting_tree_le_iff] using ⟨hd, hd₁, hd₂⟩

theorem isList_of_listOf {settings : Settings} (hf : settings.flat = false)
    (hx : ReadsExprs item room) {opener node : Node} {rest : List Node} {depth : Nat}
    {later : Cursor} (ho : opener.isLiteral "(" = true)
    (h : listOf settings item ⟨opener :: rest, depth⟩ = .ok node later)
    (hs : Cursor.IsScannable ⟨opener :: rest, depth⟩) : node.IsList ∧ node.nesting ≤ room + 1 := by
  rw [listOf_of_open hf item ho] at h
  obtain ⟨-, last, h, -⟩ := nested_eq_ok h
  rw [bind_of_ok (advance_cons opener rest _)] at h
  obtain ⟨inner, later₁, hc, h⟩ := bind_eq_ok_iff.1 h
  obtain ⟨closer, later₂, hcl, h⟩ := bind_eq_ok_iff.1 h
  cases h
  obtain ⟨token, rest₁, ht, hr, hb, hd⟩ :=
    isBodyBefore_of_chainRun hx (chainRun_of_chainSeq hc) (hs.of_cons _)
  obtain ⟨_, depth₁⟩ := later₁
  cases hr
  have hclose : closer = .leaf token := by
    rw [close_cons] at hcl
    split at hcl <;> cases hcl
    rfl
  rw [Node.eq_leaf_of_isLiteral (by decide) ho, hclose]
  refine ⟨.mk ht hb, ?_⟩
  rw [Node.nesting_tree_succ_le_iff]
  intro child hm
  simp only [List.mem_cons, List.not_mem_nil, or_false] at hm
  rcases hm with rfl | rfl | rfl
  · exact Nat.zero_le _
  · exact hd
  · exact Nat.zero_le _

theorem isExpr_of_exprOf {list : Reader Node} {cursor later : Cursor} {node : Node}
    (hs : cursor.IsScannable) (h : exprOf list cursor = .ok node later)
    (hl : ∀ {opener rest depth child later'}, cursor = ⟨opener :: rest, depth⟩ →
      opener.isLiteral "(" = true → list cursor = .ok child later' →
      child.IsList ∧ child.nesting ≤ room) :
    node.IsExpr ∧ node.nesting ≤ room := by
  have wrap : ∀ child : Node, child.nesting ≤ room → (Node.tree .sexpr [child]).nesting ≤ room :=
    fun child hd => by simpa [Node.nesting_tree_le_iff] using hd
  obtain ⟨_ | ⟨next, rest⟩, depth⟩ := cursor
  · rw [exprOf_nil] at h
    cases h
  by_cases ho : next.isLiteral "(" = true
  · rw [exprOf_of_open list ho] at h
    obtain ⟨child, later₁, hc, h⟩ := bind_eq_ok_iff.1 h
    cases h
    obtain ⟨hlist, hd⟩ := hl rfl ho hc
    exact ⟨.list hlist, wrap child hd⟩
  · rw [Bool.not_eq_true] at ho
    rw [exprOf_of_not_open list ho] at h
    obtain ⟨child, later₁, ha, h⟩ := bind_eq_ok_iff.1 h
    cases h
    rcases hs.head with ⟨token, hk, rfl⟩ | rfl | rfl
    · rw [atom_of_isAtomic (.leaf token) hk.1] at ha
      cases ha
      exact ⟨.atom hk.1, wrap _ (by simp [Node.nesting, Node.nestingAll])⟩
    · cases ho
    · rw [atom_of_isClose (by decide)] at ha
      cases ha
      exact ⟨.stray, wrap _ (Nat.zero_le _)⟩

section Bounded

variable [CallStack]

theorem readsExprs_listWithin {settings : Settings} (hf : settings.flat = false) :
    ∀ (room : Nat) (h : Consumes (exprOf (listWithin settings room).read)),
      ReadsExprs ⟨exprOf (listWithin settings room).read, h⟩ room
  | 0, _ => by
    refine ⟨lossless_exprOf (lossless_listWithin settings 0),
      fun cursor node later hs hr => isExpr_of_exprOf hs hr fun he ho hl => ?_⟩
    subst he
    exact absurd hl (listOf_starved_ne_ok hf ho)
  | room + 1, _ => by
    refine ⟨lossless_exprOf (lossless_listWithin settings (room + 1)),
      fun cursor node later hs hr => isExpr_of_exprOf hs hr fun he ho hl => ?_⟩
    subst he
    exact isList_of_listOf hf (readsExprs_listWithin hf room _) ho hl hs

theorem readsExprs_expr {settings : Settings} (hf : settings.flat = false) :
    ReadsExprs (expr settings) CallStack.room :=
  readsExprs_listWithin hf CallStack.room _

end Bounded

theorem isProgram_of_programFrom (hx : ReadsExprs item room) {found : List Node}
    {cursor later : Cursor} {tree : Node} (h : programFrom item found cursor = .ok tree later)
    (hs : cursor.IsScannable) (hfound : ∀ node ∈ found, node.IsExpr ∧ node.nesting ≤ room) :
    tree.IsProgram ∧ tree.nesting ≤ room := by
  fun_induction programFrom item found cursor with
  | case1 found cursor =>
    cases h
    have hr : ∀ node ∈ found.reverse, node.IsExpr ∧ node.nesting ≤ room := fun node hn =>
      hfound node (List.mem_reverse.1 hn)
    refine ⟨⟨_, rfl, fun node hn => (hr node hn).1⟩, ?_⟩
    rw [Node.nesting_tree_le_iff (by decide)]
    exact fun node hn => (hr node hn).2
  | case2 => cases h
  | case3 found cursor _ _ _ node cursor' hr ih =>
    refine ih h (hs.of_takes hx.1 hr) fun node' hn => ?_
    rcases List.mem_cons.1 hn with rfl | hn
    · exact hx.2 hs hr
    · exact hfound node' hn

/-! ### What is of the grammar is read -/

/-- Where the tokens of the node come next, the reader takes them and gives the node. -/
def ReadsBack (reader : Reader Node) (node : Node) : Prop :=
  ∀ (rest : List Node) (depth : Nat),
    reader ⟨node.leaves.map .leaf ++ rest, depth⟩ = .ok node ⟨rest, depth⟩

/-- Where the tokens of the body and `closer` come next, the chained sequence of them is the body. -/
def BodyReadsBack (item : Item) (closer : Token) (body : Node) : Prop :=
  ∀ (rest : List Node) (depth : Nat),
    ChainRun item ⟨body.leaves.map .leaf ++ .leaf closer :: rest, depth⟩ body
      ⟨.leaf closer :: rest, depth⟩

theorem readsBack_sexpr_atom (list : Reader Node) {token : Token}
    (h : token.category.isAtomic = true) :
    ReadsBack (exprOf list) (.tree .sexpr [.tree .atom [.leaf token]]) := by
  intro rest depth
  have ho : (Node.leaf token).isLiteral "(" = false := by
    have hc : token.category ≠ .literal := ((Category.isAtomic_iff _).1 h).2
    simp [Node.isLiteral, Node.category, hc]
  rw [Node.leaves_tree_singleton, Node.leaves_tree_singleton, Node.leaves_leaf]
  show exprOf list ⟨.leaf token :: rest, depth⟩ = _
  rw [exprOf_of_not_open list ho, bind_of_ok (atom_of_isAtomic (.leaf token) h rest depth)]
  rfl

theorem readsBack_sexpr_stray (list : Reader Node) :
    ReadsBack (exprOf list) (.tree .sexpr [.leaf .closeParen]) := by
  intro rest depth
  rw [Node.leaves_tree_singleton, Node.leaves_leaf]
  show exprOf list ⟨.leaf .closeParen :: rest, depth⟩ = _
  rw [exprOf_of_not_open list (by decide), bind_of_ok (atom_of_isClose (by decide) rest depth)]
  rfl

/-- A list is read where its tokens come next if its body is. -/
theorem readsBack_listOf {item : Item} {closer : Token} {body : Node}
    (hb : BodyReadsBack item closer body) :
    ReadsBack (listOf {} item) (.tree .list [.leaf .openParen, body, .leaf closer]) := by
  intro rest depth
  simp only [Node.leaves_tree, Node.leavesAll_cons, Node.leaves_leaf, Node.leavesAll_nil,
    List.append_nil, List.map_cons, List.map_nil, List.map_append, List.cons_append,
    List.nil_append, List.append_assoc]
  rw [listOf_of_admitted rfl item (by decide) _ rfl, chainList,
    bind_of_ok (hb rest (depth + 1)).chainSeq_eq_ok]
  have hc : close {} ⟨.leaf closer :: rest, depth + 1⟩ = .ok (.leaf closer) ⟨rest, depth + 1⟩ :=
    close_cons {} (.leaf closer) rest (depth + 1)
  rw [bind_of_ok hc]
  rfl

/-- An expression that is a list is read where the list is. -/
theorem readsBack_sexpr_list {list : Reader Node} {children : List Node}
    (hl : ReadsBack list (.tree .list (.leaf .openParen :: children))) :
    ReadsBack (exprOf list) (.tree .sexpr [.tree .list (.leaf .openParen :: children)]) := by
  intro rest depth
  have hr := hl rest depth
  simp only [Node.leaves_tree, Node.leavesAll_cons, Node.leaves_leaf, Node.leavesAll_nil,
    List.append_nil, List.map_cons, List.cons_append, List.nil_append] at hr ⊢
  rw [exprOf_of_open list (by decide), bind_of_ok hr]
  rfl

/-- The first leaf of a node is the next node where its tokens come next. -/
theorem tokens_eq_cons {node : Node} {token : Token} (h : node.leaves.head? = some token)
    (rest : List Node) :
    ∃ rest', node.leaves.map .leaf ++ rest = .leaf token :: rest' := by
  rcases hl : node.leaves with _ | ⟨first, leaves⟩
  · rw [hl] at h
    cases h
  · rw [hl] at h
    cases h
    exact ⟨_, rfl⟩

section Bodies

variable {item : Item} {closer : Token} {head inner extra : Node}

theorem bodyReadsBack_single (hc : closer = .openParen ∨ closer = .closeParen)
    (hh : ReadsBack item.read head) : BodyReadsBack item closer (.tree .seq [head]) := by
  intro rest depth
  have he : (Node.leaf closer).endsSeq = true := by
    rcases hc with rfl | rfl <;> decide
  rw [Node.leaves_tree_singleton]
  exact .single (hh _ _) rfl he

theorem bodyReadsBack_nested (hh : ReadsBack item.read head) {token : Token}
    (ht : inner.leaves.head? = some token) (ha : token.IsAtom)
    (hi : BodyReadsBack item .closeParen inner) :
    BodyReadsBack item .closeParen (.tree .seq [head, inner]) := by
  intro rest depth
  obtain ⟨rest', hr⟩ := tokens_eq_cons ht (.leaf .closeParen :: rest)
  simp only [Node.leaves_tree, Node.leavesAll_cons, Node.leavesAll_nil, List.append_nil,
    List.map_append, List.append_assoc]
  exact .nested (hh _ _) hr ha.endsSeq (hi _ _) rfl (by decide)

theorem bodyReadsBack_extra (hh : ReadsBack item.read head) {token : Token}
    (ht : inner.leaves.head? = some token) (ha : token.IsAtom)
    (hi : BodyReadsBack item .openParen inner) (ho : extra.leaves.head? = some .openParen)
    (hx : BodyReadsBack item closer extra) :
    BodyReadsBack item closer (.tree .seq [head, inner, extra]) := by
  intro rest depth
  obtain ⟨rest₂, hr₂⟩ := tokens_eq_cons ho (.leaf closer :: rest)
  obtain ⟨rest₁, hr₁⟩ := tokens_eq_cons ht (.leaf .openParen :: rest₂)
  simp only [Node.leaves_tree, Node.leavesAll_cons, Node.leavesAll_nil, List.append_nil,
    List.map_append, List.append_assoc]
  have hx' := hx rest depth
  rw [hr₂] at hx' ⊢
  exact .extra (hh _ _) hr₁ ha.endsSeq (hi _ _) rfl (by decide) hx'

end Bodies

section Bounded

variable [CallStack]

mutual

theorem readsBack_of_isExpr : ∀ {node : Node}, node.IsExpr → ∀ {room : Nat},
    node.nesting ≤ room → node.HasScannableLeaves →
      ReadsBack (exprOf (listWithin {} room).read) node
  | _, .atom h, _, _, _ => readsBack_sexpr_atom _ h
  | _, .list h, room, hd, hs => by
    have hd' := (Node.nesting_tree_le_iff (by decide)).1 hd _ List.mem_cons_self
    have hl := readsBack_of_isList h hd' (hs.child List.mem_cons_self)
    cases h with
    | mk => exact readsBack_sexpr_list hl
  | _, .stray, _, _, _ => readsBack_sexpr_stray _

theorem readsBack_of_isList : ∀ {node : Node}, node.IsList → ∀ {room : Nat},
    node.nesting ≤ room → node.HasScannableLeaves →
      ReadsBack (listWithin {} room).read node
  | _, .mk _ _, 0, hd, _ => absurd hd (by rw [Node.nesting, if_pos rfl]; omega)
  | _, .mk hc hb, room + 1, hd, hs => by
    have hd' := Node.nesting_tree_succ_le_iff.1 hd
    exact readsBack_listOf
      (bodyReadsBack_of_isBodyBefore hb hc (hd' _ (by simp)) (hs.child (by simp)) _)

theorem bodyReadsBack_of_isBodyBefore : ∀ {closer : Token} {body : Node},
    body.IsBodyBefore closer → (closer = .openParen ∨ closer = .closeParen) → ∀ {room : Nat},
      body.nesting ≤ room → body.HasScannableLeaves →
        ∀ h, BodyReadsBack ⟨exprOf (listWithin {} room).read, h⟩ closer body
  | _, _, .single hx, hc, room, hd, hs, h => by
    have hd' := (Node.nesting_tree_le_iff (by decide)).1 hd
    exact bodyReadsBack_single hc
      (readsBack_of_isExpr hx (hd' _ (by simp)) (hs.child (by simp)))
  | _, _, @Node.IsBodyBefore.nested _ inner hx ⟨token, ht, ha⟩ hi, hc, room, hd, hs, h => by
    have hd' := (Node.nesting_tree_le_iff (by decide)).1 hd
    have hs' : inner.HasScannableLeaves := hs.child (by simp)
    have ha' : token.IsAtom := (hs' token (List.mem_of_mem_head? ht)).isAtom ha
    exact bodyReadsBack_nested (readsBack_of_isExpr hx (hd' _ (by simp)) (hs.child (by simp))) ht ha'
      (bodyReadsBack_of_isBodyBefore hi hc (hd' _ (by simp)) hs' h)
  | _, _, @Node.IsBodyBefore.extra _ _ inner _ hx ⟨token, ht, ha⟩ hi ho he, hc, room, hd, hs, h => by
    have hd' := (Node.nesting_tree_le_iff (by decide)).1 hd
    have hs' : inner.HasScannableLeaves := hs.child (by simp)
    have ha' : token.IsAtom := (hs' token (List.mem_of_mem_head? ht)).isAtom ha
    exact bodyReadsBack_extra (readsBack_of_isExpr hx (hd' _ (by simp)) (hs.child (by simp))) ht ha'
      (bodyReadsBack_of_isBodyBefore hi (Or.inl rfl) (hd' _ (by simp)) hs' h) ho
      (bodyReadsBack_of_isBodyBefore he hc (hd' _ (by simp)) (hs.child (by simp)) h)

end

end Bounded

/-! ### Programs -/

theorem programFrom_of_readsBack {item : Item} {children : List Node}
    (h : ∀ child ∈ children, ReadsBack item.read child) (found : List Node) (depth : Nat) :
    programFrom item found ⟨(Node.leavesAll children).map .leaf, depth⟩ =
      .ok (.tree .program (found.reverse ++ children)) ⟨[], depth⟩ := by
  induction children generalizing found with
  | nil =>
    rw [List.append_nil, Node.leavesAll_nil]
    exact programFrom_of_nil item found rfl
  | cons child children ih =>
    have hr := h child List.mem_cons_self ((Node.leavesAll children).map .leaf) depth
    rw [← List.map_append, ← Node.leavesAll_cons] at hr
    have hlt := item.consumes hr
    rcases hl : (Node.leavesAll (child :: children)).map Node.leaf with _ | ⟨next, rest⟩
    · rw [hl] at hlt
      exact absurd hlt (Nat.not_lt_zero _)
    rw [hl] at hr
    rw [programFrom_of_cons item found rfl, bind_of_ok hr,
      ih (fun child hc => h child (List.mem_cons_of_mem _ hc))]
    simp

/-- Tokens are read to a tree by the default settings if and only if the tree is a program of the
grammar with these leaves, and nests no more lists than there is room for. -/
theorem read_eq_ok_iff_isProgram [CallStack] {text : String} {tokens : List Token}
    (h : Token.scan text = .ok tokens) (tree : Node) :
    Program.read (tokens.map .leaf) (.loose .null) = .ok tree ↔
      tree.leaves = tokens ∧ tree.IsProgram ∧ tree.nesting ≤ CallStack.room := by
  have hscan := Token.isScannable_of_scan h
  constructor
  · intro hr
    obtain ⟨settings, last, hs, hp⟩ := Program.read_eq_ok_iff.1 hr
    cases hs
    obtain ⟨hg, hn⟩ := isProgram_of_programFrom (readsExprs_expr rfl) hp
      (Cursor.isScannable_map_leaf hscan 0) (fun _ hm => absurd hm List.not_mem_nil)
    refine ⟨?_, hg, hn⟩
    rw [Program.leaves_of_read hr, ← Node.leavesAll_eq_flatMap, Node.leavesAll_map_leaf]
  · rintro ⟨rfl, ⟨children, rfl, hx⟩, hn⟩
    have hn' := (Node.nesting_tree_le_iff (by decide)).1 hn
    have hs : (Node.tree .program children).HasScannableLeaves := hscan
    have hb : ∀ child ∈ children, ReadsBack (expr {}).read child := fun child hc =>
      readsBack_of_isExpr (hx child hc) (hn' child hc) (hs.child hc)
    rw [Node.leaves_tree]
    exact Program.read_eq_ok_iff.2 ⟨{}, _, rfl, programFrom_of_readsBack hb [] 0⟩

/-- In `(a b (c)(` the inner `(` opens an extra body, and the last one ends the list. -/
theorem read_eq_ok_iff_isProgram_extra :
    let atom (text : String) : Node :=
      .tree .sexpr [.tree .atom [.leaf ⟨.identifier, text⟩]]
    let inner : Node := .tree .list
      [.leaf .openParen, .tree .seq [atom "c"], .leaf .closeParen]
    let list : Node := .tree .list
      [.leaf .openParen,
        .tree .seq [atom "a", .tree .seq [atom "b"], .tree .seq [.tree .sexpr [inner]]],
        .leaf .openParen]
    let tree : Node := .tree .program [.tree .sexpr [list]]
    Token.scan "(a b (c)(" = .ok tree.leaves ∧
      Program.read (tree.leaves.map .leaf) (.loose .null) = .ok tree := by
  intro atom inner list tree
  have hatom : ∀ text, (atom text).IsExpr := fun text => .atom rfl
  have hinner : inner.IsList := .mk (Or.inr rfl) (.single (hatom "c"))
  have hnested : (Node.tree .seq [atom "b"]).StartsWithAtom :=
    ⟨⟨.identifier, "b"⟩, by simp [atom], rfl⟩
  have hextra : (Node.tree .seq [.tree .sexpr [inner]]).StartsWithOpen := by
    simp [Node.StartsWithOpen, inner]
  have hlist : list.IsList := .mk (Or.inl rfl)
    (.extra (hatom "a") hnested (.single (hatom "b")) hextra (.single (.list hinner)))
  have hscan : Token.scan "(a b (c)(" = .ok tree.leaves :=
    eq_ok_of_toOption (by decide +kernel)
  have hprogram : tree.IsProgram := by
    refine ⟨_, rfl, fun child hc => ?_⟩
    rw [List.mem_singleton.1 hc]
    exact .list hlist
  exact ⟨hscan, (read_eq_ok_iff_isProgram hscan tree).2 ⟨rfl, hprogram, by decide⟩⟩

end Reader

end SexprReader
