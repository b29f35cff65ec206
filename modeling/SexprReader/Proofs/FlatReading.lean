import SexprReader.Proofs.Reading

/-!
# Reading with flat sequences

Flat trees are those in which a list holds all its expressions in one sequence (`Node.IsFlat`): a
list is a `(`, a sequence of atoms and lists unless there are none, and a `)`, and only at the top
may a `)` stand for an expression.  With flat sequences, reading tokens gives exactly the flat tree
that has them as its leaves; so a flat tree is read back from its leaves, and no other flat tree has
the same ones.  How deep a tree may nest is counted by expressions here, as a list without any takes
no more room than an atom; a tree that nests as many lists nests one expression more at most
(`IsFlat.nesting_sexpr_le`).

The loop of a flat sequence is a run of its item up to a `)` (`FlatRun`, `flatFrom_eq_ok_iff`).  Each
direction follows such a run: what is read at a `)` is a `)`, and what is read elsewhere is an atom
or a list, so inside of a list, where no expression is read at a `)`, there are only these.
-/

namespace SexprReader

namespace Node

/-- The expression that a `)` outside of all lists stands for. -/
def stray : Node := .tree .sexpr [.leaf .closeParen]

mutual

/-- The node is an expression of a flat tree: an atom or a list. -/
inductive IsFlatExpr : Node → Prop
  | atom {token : Token} (h : token.category.isAtomic = true) :
      IsFlatExpr (.tree .sexpr [.tree .atom [.leaf token]])
  | list {node : Node} (h : IsFlatList node) : IsFlatExpr (.tree .sexpr [node])

/-- The node is a list of a flat tree. -/
inductive IsFlatList : Node → Prop
  | empty : IsFlatList (.tree .list [.leaf .openParen, .leaf .closeParen])
  | seq {items : List Node} (hne : items ≠ []) (h : ∀ item ∈ items, IsFlatExpr item) :
      IsFlatList (.tree .list [.leaf .openParen, .tree .seq items, .leaf .closeParen])

end

/-- The node is a flat tree: a program of atoms, lists and `)`. -/
def IsFlat (node : Node) : Prop :=
  ∃ children, node = .tree .program children ∧
    ∀ child ∈ children, child.IsFlatExpr ∨ child = stray

/-- An expression of a flat tree does not begin with a `)`. -/
theorem IsFlatExpr.exists_head {node : Node} (h : node.IsFlatExpr) :
    ∃ token, node.leaves.head? = some token ∧ (leaf token).isLiteral ")" = false := by
  cases h with
  | @atom token h =>
    have hc : token.category ≠ .literal := ((Category.isAtomic_iff _).1 h).2
    exact ⟨token, by simp, by simp [isLiteral, category, hc]⟩
  | list h => cases h <;> exact ⟨.openParen, by simp, by decide⟩

theorem IsFlatExpr.nesting_pos {node : Node} (h : node.IsFlatExpr) : 0 < node.nesting .sexpr := by
  cases h <;> exact nesting_tree_pos .sexpr _

/-! ### Lists and expressions on a path -/

mutual

theorem IsFlatExpr.nesting_sexpr_le : ∀ {node : Node}, node.IsFlatExpr → ∀ {n : Nat},
    node.nesting ≤ n → node.nesting .sexpr ≤ n + 1
  | _, .atom _, n, _ => by simp [nesting, nestingAll]
  | _, .list h, n, hn => by
    have hn' := (nesting_tree_le_iff (by decide)).1 hn _ List.mem_cons_self
    simpa [nesting_tree_succ_le_iff] using h.nesting_sexpr_le hn'

theorem IsFlatList.nesting_sexpr_le : ∀ {node : Node}, node.IsFlatList → ∀ {n : Nat},
    node.nesting ≤ n → node.nesting .sexpr ≤ n
  | _, .empty, n, _ => by simp [nesting, nestingAll]
  | _, .seq _ _, 0, hn => absurd hn (by rw [nesting, if_pos rfl]; omega)
  | _, @IsFlatList.seq items _ h, n + 1, hn => by
    have hn' := (nesting_tree_le_iff (by decide)).1
      (nesting_tree_succ_le_iff.1 hn (.tree .seq items) (by simp))
    have hitems : (tree .seq items).nesting .sexpr ≤ n + 1 :=
      (nesting_tree_le_iff (by decide)).2 fun item hi => (h item hi).nesting_sexpr_le (hn' item hi)
    simpa [nesting, nestingAll] using hitems

end

theorem IsFlat.nesting_sexpr_le {tree : Node} (h : tree.IsFlat) {n : Nat} (hn : tree.nesting ≤ n) :
    tree.nesting .sexpr ≤ n + 1 := by
  obtain ⟨children, rfl, hx⟩ := h
  rw [nesting_tree_le_iff (by decide)] at hn ⊢
  intro child hc
  rcases hx child hc with hflat | rfl
  · exact hflat.nesting_sexpr_le (hn child hc)
  · simp [stray, nesting, nestingAll]

end Node

namespace Cursor

theorem eq_of_atClose {cursor : Cursor} (h : cursor.atClose = true) :
    ∃ rest, cursor = ⟨.leaf .closeParen :: rest, cursor.depth⟩ := by
  obtain ⟨_ | ⟨node, rest⟩, depth⟩ := cursor
  · cases h
  · rw [Node.eq_leaf_of_isLiteral (by decide) h]
    exact ⟨rest, rfl⟩

end Cursor

namespace Reader

/-! ### Runs of a flat sequence -/

/-- `FlatRun item cursor items last` says that `item` reads `items` one after the other from `cursor`
on, each before something other than a `)`, and ends at `last` before a `)`. -/
inductive FlatRun (item : Item) : Cursor → List Node → Cursor → Prop
  | done {cursor : Cursor} (h : cursor.atClose = true) : FlatRun item cursor [] cursor
  | more {cursor later last : Cursor} {node : Node} {items : List Node}
      (h : cursor.atClose = false) (hi : item.read cursor = .ok node later)
      (hr : FlatRun item later items last) : FlatRun item cursor (node :: items) last

section Runs

variable {item : Item} {cursor last : Cursor} {items : List Node}

theorem FlatRun.atClose (h : FlatRun item cursor items last) : last.atClose = true := by
  induction h with
  | done h => exact h
  | more _ _ _ ih => exact ih

theorem FlatRun.ne_nil (h : FlatRun item cursor items last) (hc : cursor.atClose = false) :
    items ≠ [] := by
  cases h with
  | done h =>
    rw [hc] at h
    cases h
  | more => exact List.cons_ne_nil _ _

theorem FlatRun.atClose_eq_false (h : FlatRun item cursor items last) (hne : items ≠ []) :
    cursor.atClose = false := by
  cases h with
  | done => exact absurd rfl hne
  | more h => exact h

/-- The runs of `FlatRun` are those in which the loop gives a sequence. -/
theorem flatFrom_eq_ok_iff {found : List Node} {node : Node} :
    flatFrom item found cursor = .ok node last ↔
      ∃ items, node = .tree .seq (found.reverse ++ items) ∧ FlatRun item cursor items last := by
  constructor
  · intro h
    fun_induction flatFrom item found cursor with
    | case1 found cursor hc =>
      cases h
      exact ⟨[], by rw [List.append_nil], .done hc⟩
    | case2 => cases h
    | case3 found cursor hc head later hr ih =>
      obtain ⟨items, rfl, hi⟩ := ih h
      exact ⟨head :: items, by simp, .more (by simpa using hc) hr hi⟩
  · rintro ⟨items, rfl, h⟩
    induction h generalizing found with
    | done h => rw [flatFrom_of_atClose item found h, List.append_nil]
    | more h hi _ ih =>
      rw [flatFrom_of_not_atClose item found h, bind_of_ok hi, ih]
      simp

theorem flatSeq_eq_ok_iff {node : Node} (hc : cursor.atClose = false) :
    flatSeq item cursor = .ok node last ↔
      ∃ items, node = .tree .seq items ∧ FlatRun item cursor items last := by
  have he : flatSeq item cursor = flatFrom item [] cursor :=
    (flatFrom_of_not_atClose item [] hc).symm
  rw [he, flatFrom_eq_ok_iff]
  rfl

end Runs

/-! ### Flat lists -/

/-- What follows the `(` of a list: what it holds, and the node that ends it. -/
def listRest (settings : Settings) (item : Item) (opener : Node) : Reader Node := do
  let held ← body settings item
  let closer ← close settings
  return .tree .list (opener :: held ++ [closer])

theorem listOf_eq_nested (settings : Settings) (item : Item) {opener : Node}
    (ho : opener.isLiteral "(" = true) (rest : List Node) (depth : Nat) :
    listOf settings item ⟨opener :: rest, depth⟩ =
      nested settings (advance >>= listRest settings item) ⟨opener :: rest, depth⟩ := by
  rw [listOf, bind_of_ok (expectOpen_of_open ho rest depth)]
  rfl

section Lists

variable {settings : Settings} (item : Item) {cursor : Cursor}

theorem body_of_atClose (hf : settings.flat = true) (hc : cursor.atClose = true) :
    body settings item cursor = .ok [] cursor := by
  rw [body_eq, hf, hc]
  rfl

theorem body_of_not_atClose (hf : settings.flat = true) (hc : cursor.atClose = false) :
    body settings item cursor = (flatSeq item >>= fun node => pure [node]) cursor := by
  rw [body_eq, hf, hc, seq, hf]
  rfl

/-- A list ends at a `)` if it comes next, whatever the settings say. -/
theorem close_of_isClose {node : Node} (h : node.isLiteral ")" = true) (rest : List Node)
    (depth : Nat) : close settings ⟨node :: rest, depth⟩ = .ok node ⟨rest, depth⟩ := by
  rw [close_cons, h, Bool.not_true, Bool.and_false]
  rfl

end Lists

/-! ### What is read is flat -/

variable {item : Item} {room : Nat}

/-- What an item reads before a `)` is a `)`, and what it reads elsewhere is an expression of a flat
tree; and it nests at most `room` expressions. -/
def ReadsFlat (item : Item) (room : Nat) : Prop :=
  Lossless item.read ∧ ∀ ⦃cursor node later⦄, cursor.IsTokens →
    item.read cursor = .ok node later →
      (cursor.atClose = false → node.IsFlatExpr) ∧ (cursor.atClose = true → node = .stray) ∧
        node.nesting .sexpr ≤ room

theorem isFlatExpr_of_flatRun (hx : ReadsFlat item room) {cursor last : Cursor} {items : List Node}
    (h : FlatRun item cursor items last) (hs : cursor.IsTokens) :
    ∀ node ∈ items, node.IsFlatExpr ∧ node.nesting .sexpr ≤ room := by
  induction h with
  | done => exact fun node hn => absurd hn List.not_mem_nil
  | more hc hi _ ih =>
    obtain ⟨hflat, -, hd⟩ := hx.2 hs hi
    exact List.forall_mem_cons.2 ⟨⟨hflat hc, hd⟩, ih (hs.of_takes hx.1 hi)⟩

theorem isFlatList_of_listOf {settings : Settings} (hf : settings.flat = true)
    (hx : ReadsFlat item room) {opener node : Node} {rest : List Node} {depth : Nat}
    {later : Cursor} (ho : opener.isLiteral "(" = true)
    (h : listOf settings item ⟨opener :: rest, depth⟩ = .ok node later)
    (hs : Cursor.IsTokens ⟨opener :: rest, depth⟩) :
    node.IsFlatList ∧ node.nesting .sexpr ≤ room := by
  rw [listOf_eq_nested settings item ho] at h
  obtain ⟨-, last, h, -⟩ := nested_eq_ok h
  rw [bind_of_ok (advance_cons opener rest _)] at h
  obtain ⟨held, middle, hb, h⟩ := bind_eq_ok_iff.1 h
  obtain ⟨closer, after, hcl, h⟩ := bind_eq_ok_iff.1 h
  cases h
  -- the list ends at a `)`, as the loop leaves off before one
  have closes : middle.atClose = true → closer = .leaf .closeParen := by
    intro hm
    obtain ⟨rest', hr⟩ := Cursor.eq_of_atClose hm
    rw [hr, close_of_isClose (by decide)] at hcl
    cases hcl
    rfl
  rw [Node.eq_leaf_of_isLiteral (by decide) ho]
  cases hc : Cursor.atClose ⟨rest, depth + 1⟩ with
  | true =>
    rw [body_of_atClose item hf hc] at hb
    cases hb
    rw [closes hc]
    exact ⟨.empty, by simp [Node.nesting, Node.nestingAll]⟩
  | false =>
    rw [body_of_not_atClose item hf hc] at hb
    obtain ⟨seq, middle', hseq, hb⟩ := bind_eq_ok_iff.1 hb
    cases hb
    obtain ⟨items, rfl, hrun⟩ := (flatSeq_eq_ok_iff hc).1 hseq
    have hitems := isFlatExpr_of_flatRun hx hrun (hs.of_cons _)
    rw [closes hrun.atClose]
    refine ⟨.seq (hrun.ne_nil hc) fun node hn => (hitems node hn).1, ?_⟩
    have hseq : (Node.tree .seq items).nesting .sexpr ≤ room :=
      (Node.nesting_tree_le_iff (by decide)).2 fun node hn => (hitems node hn).2
    rw [Node.nesting_tree_le_iff (by decide)]
    simpa [Node.nesting] using hseq

theorem readsFlat_exprOf {list : Reader Node} (hl : Lossless list) {h : Consumes (exprOf list)}
    (hlist : ∀ {opener rest depth node later}, opener.isLiteral "(" = true →
      Cursor.IsTokens ⟨opener :: rest, depth⟩ → list ⟨opener :: rest, depth⟩ = .ok node later →
      node.IsFlatList ∧ node.nesting .sexpr ≤ room) :
    ReadsFlat ⟨exprOf list, h⟩ (room + 1) := by
  refine ⟨lossless_exprOf hl, fun cursor node later hs hr => ?_⟩
  have wrap : ∀ child : Node, child.nesting .sexpr ≤ room →
      (Node.tree .sexpr [child]).nesting .sexpr ≤ room + 1 :=
    fun child hd => by simpa [Node.nesting_tree_succ_le_iff] using hd
  obtain ⟨next, rest, child, he, rfl, hchild⟩ := exprOf_eq_ok hr
  rw [he] at hs hchild ⊢
  rcases hchild with ⟨ho, hc⟩ | ⟨hk, rfl⟩ | ⟨hk, rfl⟩
  · obtain ⟨hflat, hd⟩ := hlist ho hs hc
    refine ⟨fun _ => .list hflat, fun hclose => ?_, wrap child hd⟩
    rw [Node.eq_leaf_of_isLiteral (by decide) ho] at hclose
    cases hclose
  · obtain ⟨token, rfl⟩ := hs next List.mem_cons_self
    refine ⟨fun _ => .atom hk, fun hclose => ?_, wrap _ (by simp [Node.nesting, Node.nestingAll])⟩
    rw [Node.eq_leaf_of_isLiteral (by decide) hclose] at hk
    cases hk
  · rw [Node.eq_leaf_of_isLiteral (by decide) hk]
    exact ⟨(fun hclose => by cases hclose), fun _ => rfl, wrap _ (Nat.zero_le _)⟩

theorem readsFlat_starved [CallStack] : ReadsFlat ⟨starved, consumes_starved⟩ 0 :=
  ⟨takes_starved _, fun cursor _ _ _ h => by cases (starved_eq cursor).symm.trans h⟩

theorem readsFlat_listWithin [CallStack] {settings : Settings} (hf : settings.flat = true) :
    ∀ (room : Nat) (h : Consumes (exprOf (listWithin settings room).read)),
      ReadsFlat ⟨exprOf (listWithin settings room).read, h⟩ (room + 1)
  | 0, _ =>
    readsFlat_exprOf (lossless_listWithin settings 0) fun ho hs hl =>
      isFlatList_of_listOf hf readsFlat_starved ho hl hs
  | room + 1, _ =>
    readsFlat_exprOf (lossless_listWithin settings (room + 1)) fun ho hs hl =>
      isFlatList_of_listOf hf (readsFlat_listWithin hf room _) ho hl hs

theorem isFlat_of_programFrom (hx : ReadsFlat item room) {cursor later : Cursor} {tree : Node}
    (h : programFrom item [] cursor = .ok tree later) (hs : cursor.IsTokens) :
    tree.IsFlat ∧ tree.nesting .sexpr ≤ room := by
  have hpost : ∀ ⦃cursor node later⦄, cursor.IsTokens → item.read cursor = .ok node later →
      ((node.IsFlatExpr ∨ node = .stray) ∧ node.nesting .sexpr ≤ room) ∧ later.IsTokens := by
    intro cursor node later hs hr
    obtain ⟨hflat, hstray, hd⟩ := hx.2 hs hr
    refine ⟨⟨?_, hd⟩, hs.of_takes hx.1 hr⟩
    cases hc : cursor.atClose with
    | true => exact Or.inr (hstray hc)
    | false => exact Or.inl (hflat hc)
  obtain ⟨children, rfl, hchildren⟩ :=
    forall_of_programFrom hpost h hs fun _ hn => absurd hn List.not_mem_nil
  refine ⟨⟨_, rfl, fun child hc => (hchildren child hc).1⟩, ?_⟩
  rw [Node.nesting_tree_le_iff (by decide)]
  exact fun child hc => (hchildren child hc).2

/-! ### What is flat is read -/

/-- The expressions are read one after the other where their tokens and a `)` come next. -/
theorem flatRun_of_readsBack {items : List Node}
    (h : ∀ node ∈ items, node.IsFlatExpr ∧ ReadsBack item.read node) (rest : List Node)
    (depth : Nat) :
    FlatRun item ⟨(Node.leavesAll items).map .leaf ++ .leaf .closeParen :: rest, depth⟩ items
      ⟨.leaf .closeParen :: rest, depth⟩ := by
  induction items with
  | nil =>
    rw [Node.leavesAll_nil]
    exact .done rfl
  | cons node items ih =>
    obtain ⟨⟨hflat, hback⟩, hitems⟩ := List.forall_mem_cons.1 h
    rw [Node.leavesAll_cons, List.map_append, List.append_assoc]
    refine .more ?_ (hback _ depth) (ih hitems)
    obtain ⟨token, ht, hclose⟩ := hflat.exists_head
    obtain ⟨rest', hr⟩ := tokens_eq_cons ht
      ((Node.leavesAll items).map .leaf ++ .leaf .closeParen :: rest)
    rw [hr]
    exact hclose

/-- A list is read where its tokens come next if what it holds is. -/
theorem readsBack_listOf_of_body {settings : Settings} (hl : settings.maxDepth = .null)
    (held : List Node)
    (hb : ∀ rest depth,
      body settings item ⟨(Node.leavesAll held).map .leaf ++ .leaf .closeParen :: rest, depth⟩ =
        .ok held ⟨.leaf .closeParen :: rest, depth⟩) :
    ReadsBack (listOf settings item)
      (.tree .list (.leaf .openParen :: held ++ [.leaf .closeParen])) := by
  intro rest depth
  have hd : settings.exceeded (depth + 1) = .ok false := by rw [Settings.exceeded, hl]
  simp only [Node.leaves_tree, List.cons_append, Node.leavesAll_cons, Node.leavesAll_append,
    Node.leaves_leaf, Node.leavesAll_nil, List.append_nil, List.map_append, List.map_cons,
    List.map_nil, List.nil_append, List.append_assoc]
  rw [listOf_eq_nested settings item (by decide), nested_of_admitted hd,
    bind_of_ok (advance_cons _ _ _), listRest, bind_of_ok (hb rest (depth + 1)),
    bind_of_ok (close_of_isClose (by decide) rest (depth + 1))]
  rfl

/-- An empty list is read where its tokens come next, whatever there is room for. -/
theorem readsBack_listOf_empty {settings : Settings} (hf : settings.flat = true)
    (hl : settings.maxDepth = .null) (item : Item) :
    ReadsBack (listOf settings item) (.tree .list [.leaf .openParen, .leaf .closeParen]) := by
  refine readsBack_listOf_of_body hl [] fun rest depth => ?_
  rw [Node.leavesAll_nil]
  exact body_of_atClose item hf rfl

/-- The expressions of a body are read to one sequence where their tokens and a `)` come next. -/
theorem body_of_readsBack {settings : Settings} (hf : settings.flat = true) {items : List Node}
    (hne : items ≠ []) (h : ∀ node ∈ items, node.IsFlatExpr ∧ ReadsBack item.read node)
    (rest : List Node) (depth : Nat) :
    body settings item
        ⟨(Node.leavesAll [.tree .seq items]).map .leaf ++ .leaf .closeParen :: rest, depth⟩ =
      .ok [.tree .seq items] ⟨.leaf .closeParen :: rest, depth⟩ := by
  have hrun := flatRun_of_readsBack h rest depth
  have hc := hrun.atClose_eq_false hne
  rw [Node.leavesAll_cons, Node.leavesAll_nil, List.append_nil, Node.leaves_tree,
    body_of_not_atClose item hf hc, bind_of_ok ((flatSeq_eq_ok_iff hc).2 ⟨items, rfl, hrun⟩)]
  rfl

section Bounded

variable [CallStack]

mutual

theorem readsBack_of_isFlatExpr {settings : Settings} (hf : settings.flat = true)
    (hl : settings.maxDepth = .null) : ∀ {node : Node}, node.IsFlatExpr → ∀ {room : Nat},
      node.nesting .sexpr ≤ room + 1 → ReadsBack (exprOf (listWithin settings room).read) node
  | _, .atom h, _, _ => readsBack_sexpr_atom _ h
  | _, .list h, room, hd => by
    have hd' := Node.nesting_tree_succ_le_iff.1 hd _ List.mem_cons_self
    have hb := readsBack_of_isFlatList hf hl h hd'
    cases h with
    | empty => exact readsBack_sexpr_list hb
    | seq => exact readsBack_sexpr_list hb

theorem readsBack_of_isFlatList {settings : Settings} (hf : settings.flat = true)
    (hl : settings.maxDepth = .null) : ∀ {node : Node}, node.IsFlatList → ∀ {room : Nat},
      node.nesting .sexpr ≤ room → ReadsBack (listWithin settings room).read node
  | _, .empty, 0, _ => readsBack_listOf_empty hf hl _
  | _, .empty, room + 1, _ => readsBack_listOf_empty hf hl _
  | _, @Node.IsFlatList.seq items hne h, room, hd => by
    have hd' : ∀ node ∈ items, node.nesting .sexpr ≤ room :=
      (Node.nesting_tree_le_iff (by decide)).1
        ((Node.nesting_tree_le_iff (by decide)).1 hd (.tree .seq items) (by simp))
    obtain ⟨first, hfirst⟩ := List.exists_mem_of_ne_nil items hne
    have hroom : 0 < room := Nat.lt_of_lt_of_le (h first hfirst).nesting_pos (hd' first hfirst)
    obtain ⟨room, rfl⟩ := Nat.exists_eq_succ_of_ne_zero (Nat.ne_of_gt hroom)
    exact readsBack_listOf_of_body hl [.tree .seq items] (body_of_readsBack hf hne
      fun node hn => ⟨h node hn, readsBack_of_isFlatExpr hf hl (h node hn) (hd' node hn)⟩)

end

end Bounded

end Reader

namespace Program

section Bounded

variable [CallStack]

/-- What is read with flat sequences is a flat tree that nests no more expressions than there is room
for. -/
theorem isFlat_of_read {settings : Settings} (hf : settings.flat = true) {options : Options}
    (ho : options.settings = .ok settings) {tokens : List Token} {tree : Node}
    (h : read (tokens.map .leaf) options = .ok tree) :
    tree.IsFlat ∧ tree.nesting .sexpr ≤ CallStack.room + 1 := by
  obtain ⟨settings', last, hs, hp⟩ := read_eq_ok_iff.1 h
  rw [ho] at hs
  cases hs
  exact Reader.isFlat_of_programFrom (Reader.readsFlat_listWithin hf _ _) hp
    (Cursor.isTokens_map_leaf tokens 0)

/-- With flat sequences and no limit, a flat tree is read back from its leaves. -/
theorem read_leaves_of_isFlat {settings : Settings} (hf : settings.flat = true)
    (hl : settings.maxDepth = .null) {options : Options} (ho : options.settings = .ok settings)
    {tree : Node} (h : tree.IsFlat) (hn : tree.nesting .sexpr ≤ CallStack.room + 1) :
    read (tree.leaves.map .leaf) options = .ok tree := by
  obtain ⟨children, rfl, hx⟩ := h
  have hb : ∀ child ∈ children, Reader.ReadsBack (Reader.expr settings).read child := by
    intro child hc
    rcases hx child hc with hflat | rfl
    · exact Reader.readsBack_of_isFlatExpr hf hl hflat (Nat.le_trans (Node.nesting_le_of_mem hc) hn)
    · exact Reader.readsBack_sexpr_stray _
  rw [Node.leaves_tree]
  exact read_eq_ok_iff.2 ⟨_, _, ho, Reader.programFrom_of_readsBack hb [] 0⟩

/-- With flat sequences and no limit, tokens are read to a tree if and only if the tree is flat, has
these leaves, and nests no more expressions than there is room for, as all trees do in which the lists
nest within the room.  So such a tree is read back from its leaves. -/
theorem read_eq_ok_iff_isFlat (checkClose : Bool) {options : Options}
    (ho : options.settings = .ok { checkClose, flat := true }) :
    (∀ (tokens : List Token) (tree : Node), read (tokens.map .leaf) options = .ok tree ↔
      tree.IsFlat ∧ tree.leaves = tokens ∧ tree.nesting .sexpr ≤ CallStack.room + 1) ∧
    (∀ (tokens : List Token) (tree : Node), tree.nesting ≤ CallStack.room →
      (read (tokens.map .leaf) options = .ok tree ↔ tree.IsFlat ∧ tree.leaves = tokens)) ∧
    ∀ tree : Node, tree.IsFlat → tree.nesting ≤ CallStack.room →
      read (tree.leaves.map .leaf) options = .ok tree := by
  have hexact (tokens : List Token) (tree : Node) : read (tokens.map .leaf) options = .ok tree ↔
      tree.IsFlat ∧ tree.leaves = tokens ∧ tree.nesting .sexpr ≤ CallStack.room + 1 := by
    constructor
    · intro hr
      obtain ⟨hflat, hn⟩ := isFlat_of_read rfl ho hr
      exact ⟨hflat, leaves_of_read_tokens hr, hn⟩
    · rintro ⟨hflat, rfl, hn⟩
      exact read_leaves_of_isFlat rfl rfl ho hflat hn
  have hwithin (tokens : List Token) (tree : Node) (hn : tree.nesting ≤ CallStack.room) :
      read (tokens.map .leaf) options = .ok tree ↔ tree.IsFlat ∧ tree.leaves = tokens := by
    rw [hexact]
    exact ⟨fun ⟨hflat, hl, _⟩ => ⟨hflat, hl⟩, fun ⟨hflat, hl⟩ => ⟨hflat, hl, hflat.nesting_sexpr_le hn⟩⟩
  exact ⟨hexact, hwithin, fun tree hflat hn => (hwithin _ tree hn).2 ⟨hflat, rfl⟩⟩

end Bounded

/-- A list of a string `)` and an empty list, and a `)` outside of all lists. -/
theorem read_eq_ok_iff_isFlat_empty :
    let options : Options := .loose (.object [("flat_seq", .bool true)])
    let item : Node := .tree .sexpr [.tree .atom [.leaf ⟨.string, ")"⟩]]
    let empty : Node := .tree .sexpr [.tree .list [.leaf .openParen, .leaf .closeParen]]
    let list : Node := .tree .list [.leaf .openParen, .tree .seq [item, empty], .leaf .closeParen]
    let tree : Node := .tree .program [.tree .sexpr [list], .stray]
    options.settings = .ok { checkClose := false, flat := true } ∧
      read (tree.leaves.map .leaf) options = .ok tree ∧ tree.IsFlat := by
  intro options item empty list tree
  have hitems : ∀ node ∈ [item, empty], node.IsFlatExpr := by
    simpa using ⟨Node.IsFlatExpr.atom rfl, Node.IsFlatExpr.list .empty⟩
  have hflat : tree.IsFlat :=
    ⟨_, rfl, by simpa using Or.inl (.list (.seq (List.cons_ne_nil _ _) hitems))⟩
  have ho : options.settings = .ok { checkClose := false, flat := true } := rfl
  obtain ⟨hiff, -, hback⟩ := read_eq_ok_iff_isFlat false ho
  have hread := hback tree hflat (by decide)
  exact ⟨ho, hread, ((hiff tree.leaves tree).1 hread).1⟩

end Program

end SexprReader
