import SexprReader.Proofs.FlatReading
import SexprReader.Proofs.Limit

/-!
# Flattening chains of sequences

A chained sequence holds an expression, and sequences for what follows it.  `Node.flatten` puts the
expressions of such a chain into one sequence, in their order.  It keeps the leaves and the nesting of
every tree (`leaves_flatten`, `nesting_flatten`).

If lists must end at a `)` and none is empty, then each list of a chained tree has just the
parentheses of a list of a flat tree, and flattening makes a flat tree of it
(`Reader.isFlat_flatten_of_programFrom`).  So what is read without flat sequences is read with flat
sequences too, to the flattened tree (`Program.read_flatten_of_read`).
-/

namespace SexprReader

namespace Node

/-- What the node gives to a sequence around it: a sequence its children, another node itself. -/
def spliced : Node → List Node
  | tree .seq children => children
  | node => [node]

mutual

/-- The node with one sequence in place of each chain of sequences. -/
def flatten : Node → Node
  | leaf token => leaf token
  | tree category children =>
    tree category
      (if category = .seq then (flattenAll children).flatMap spliced else flattenAll children)

/-- The nodes, each with one sequence in place of each chain of sequences. -/
def flattenAll : List Node → List Node
  | [] => []
  | node :: rest => flatten node :: flattenAll rest

end

@[simp]
theorem spliced_seq (children : List Node) : (tree .seq children).spliced = children := rfl

theorem flattenAll_eq_map (nodes : List Node) : flattenAll nodes = nodes.map flatten := by
  induction nodes with
  | nil => rfl
  | cons node rest ih => rw [flattenAll, ih, List.map_cons]

@[simp]
theorem flatten_leaf (token : Token) : (leaf token).flatten = leaf token := rfl

theorem flatten_seq (children : List Node) :
    (tree .seq children).flatten = tree .seq ((children.map flatten).flatMap spliced) := by
  rw [flatten, if_pos rfl, flattenAll_eq_map]

theorem flatten_tree {category : Category} (h : category ≠ .seq) (children : List Node) :
    (tree category children).flatten = tree category (children.map flatten) := by
  rw [flatten, if_neg h, flattenAll_eq_map]

/-! ### What flattening keeps -/

@[simp]
theorem leavesAll_spliced (node : Node) : leavesAll node.spliced = node.leaves := by
  unfold spliced
  split
  · rw [leaves_tree]
  · rw [leavesAll_cons, leavesAll_nil, List.append_nil]

@[simp]
theorem nestingAll_spliced (node : Node) : nestingAll node.spliced = node.nesting := by
  unfold spliced
  split
  · rw [nesting, if_neg (by decide), Nat.zero_add]
  · rw [nestingAll, nestingAll, Nat.max_zero]

theorem leavesAll_flatMap_spliced (nodes : List Node) :
    leavesAll (nodes.flatMap spliced) = leavesAll nodes := by
  induction nodes with
  | nil => rfl
  | cons node rest ih =>
    rw [List.flatMap_cons, leavesAll_append, leavesAll_spliced, ih, leavesAll_cons]

theorem nestingAll_flatMap_spliced (nodes : List Node) :
    nestingAll (nodes.flatMap spliced) = nestingAll nodes := by
  induction nodes with
  | nil => rfl
  | cons node rest ih =>
    rw [List.flatMap_cons, nestingAll_append, nestingAll_spliced, ih, nestingAll]

mutual

theorem leaves_flatten : ∀ node : Node, node.flatten.leaves = node.leaves
  | leaf _ => rfl
  | tree category children => by
    rw [flatten, leaves_tree, leaves_tree, ← leavesAll_flattenAll children]
    split
    · exact leavesAll_flatMap_spliced _
    · rfl

theorem leavesAll_flattenAll : ∀ nodes : List Node, leavesAll (flattenAll nodes) = leavesAll nodes
  | [] => rfl
  | node :: rest => by
    rw [flattenAll, leavesAll_cons, leaves_flatten node, leavesAll_flattenAll rest, leavesAll_cons]

end

mutual

theorem nesting_flatten : ∀ node : Node, node.flatten.nesting = node.nesting
  | leaf _ => rfl
  | tree category children => by
    have hc : nestingAll (if category = .seq then (flattenAll children).flatMap spliced
        else flattenAll children) = nestingAll children := by
      rw [← nestingAll_flattenAll children]
      split
      · exact nestingAll_flatMap_spliced _
      · rfl
    rw [flatten, nesting, nesting, hc]

theorem nestingAll_flattenAll : ∀ nodes : List Node,
    nestingAll (flattenAll nodes) = nestingAll nodes
  | [] => rfl
  | node :: rest => by
    rw [flattenAll, nestingAll, nesting_flatten node, nestingAll_flattenAll rest, nestingAll]

end

theorem IsFlatExpr.spliced_eq {node : Node} (h : node.IsFlatExpr) : node.spliced = [node] := by
  cases h <;> rfl

end Node

namespace Cursor

/-- No `(` stands right before a `)` in what is left to read. -/
def SparesEmpty (cursor : Cursor) : Prop :=
  ¬ [Token.openParen, .closeParen] <:+: Node.leavesAll cursor.rest

theorem sparesEmpty_map_leaf {tokens : List Token} (h : ¬ [Token.openParen, .closeParen] <:+: tokens)
    (depth : Nat) : SparesEmpty ⟨tokens.map .leaf, depth⟩ := by
  rwa [SparesEmpty, Node.leavesAll_map_leaf]

theorem SparesEmpty.of_cons {node : Node} {rest : List Node} {depth : Nat}
    (h : SparesEmpty ⟨node :: rest, depth⟩) (depth' : Nat) : SparesEmpty ⟨rest, depth'⟩ := by
  intro hi
  apply h
  rw [Node.leavesAll_cons]
  exact hi.trans (List.suffix_append _ _).isInfix

theorem SparesEmpty.of_takes {α : Type} {reader : Reader α} {post : List Node → α → Prop}
    (ht : Reader.Takes reader post) {cursor later : Cursor} {a : α} (h : cursor.SparesEmpty)
    (hr : reader cursor = .ok a later) : later.SparesEmpty := by
  obtain ⟨taken, he, -, -⟩ := ht hr
  intro hi
  apply h
  rw [he, Node.leavesAll_append]
  exact hi.trans (List.suffix_append _ _).isInfix

/-- Behind a `(` there is no `)`. -/
theorem SparesEmpty.atClose_eq_false {rest : List Node} {depth : Nat}
    (h : SparesEmpty ⟨.leaf .openParen :: rest, depth⟩) (depth' : Nat) :
    atClose ⟨rest, depth'⟩ = false := by
  rw [Bool.eq_false_iff]
  intro hc
  obtain ⟨rest', hr⟩ := eq_of_atClose hc
  cases hr
  exact h ⟨[], Node.leavesAll rest', by simp⟩

end Cursor

namespace Reader

/-! ### What is read is flattened to flat trees -/

variable {item : Item}

/-- What an item reads before a `)` is a `)`, and what it reads elsewhere is flattened to an
expression of a flat tree. -/
def ReadsFlattened (item : Item) : Prop :=
  Lossless item.read ∧ ∀ ⦃cursor node later⦄, cursor.IsScannable → cursor.SparesEmpty →
    item.read cursor = .ok node later →
      (cursor.atClose = false → node.flatten.IsFlatExpr) ∧ (cursor.atClose = true → node = .stray)

theorem atClose_of_not_endsSeq {cursor : Cursor} {next : Node} {rest : List Node}
    (h : cursor.rest = next :: rest) (he : next.endsSeq = false) : cursor.atClose = false := by
  rw [Cursor.atClose, h]
  simp only [Node.endsSeq, Bool.or_eq_false_iff] at he
  show next.isLiteral ")" = false
  rw [Node.isLiteral, he.1, Bool.false_and]

theorem atClose_of_open {cursor : Cursor} {next : Node} {rest : List Node}
    (h : cursor.rest = next :: rest) (ho : next.isLiteral "(" = true) : cursor.atClose = false := by
  rw [Cursor.atClose, h, Node.eq_leaf_of_isLiteral (by decide) ho]
  rfl

/-- A chain is flattened to one sequence of expressions of a flat tree. -/
theorem flatten_of_chainRun (hx : ReadsFlattened item) {cursor last : Cursor} {body : Node}
    (h : ChainRun item cursor body last) (hs : cursor.IsScannable) (he : cursor.SparesEmpty)
    (hc : cursor.atClose = false) :
    ∃ items, body.flatten = .tree .seq items ∧ items ≠ [] ∧ ∀ node ∈ items, node.IsFlatExpr := by
  induction h with
  | @single cursor last head next rest hi hr hends =>
    have hhead := (hx.2 hs he hi).1 hc
    refine ⟨[head.flatten], ?_, List.cons_ne_nil _ _, by simpa using hhead⟩
    simp [Node.flatten_seq, hhead.spliced_eq]
  | @nested cursor later last head next inner stop rest rest' hi hr hends _ hs' ho ih =>
    have hhead := (hx.2 hs he hi).1 hc
    obtain ⟨items, hinner, -, hitems⟩ :=
      ih (hs.of_takes hx.1 hi) (he.of_takes hx.1 hi) (atClose_of_not_endsSeq hr hends)
    refine ⟨head.flatten :: items, ?_, List.cons_ne_nil _ _, List.forall_mem_cons.2 ⟨hhead, hitems⟩⟩
    simp [Node.flatten_seq, hhead.spliced_eq, hinner]
  | @extra cursor later later' last head next inner stop extra rest rest' hi hr hends hrun hs' ho _
      ih ihx =>
    have hhead := (hx.2 hs he hi).1 hc
    have hsl := hs.of_takes hx.1 hi
    have hel := he.of_takes hx.1 hi
    obtain ⟨items, hinner, -, hitems⟩ := ih hsl hel (atClose_of_not_endsSeq hr hends)
    have htakes : Lossless (chainSeq item) := lossless_chainSeq hx.1
    obtain ⟨items', hextra, -, hitems'⟩ :=
      ihx (hsl.of_takes htakes hrun.chainSeq_eq_ok) (hel.of_takes htakes hrun.chainSeq_eq_ok)
        (atClose_of_open hs' ho)
    refine ⟨head.flatten :: (items ++ items'), ?_, List.cons_ne_nil _ _,
      List.forall_mem_cons.2 ⟨hhead, List.forall_mem_append.2 ⟨hitems, hitems'⟩⟩⟩
    simp [Node.flatten_seq, hhead.spliced_eq, hinner, hextra]

/-- A list that ends at a `)` and is not empty is flattened to a list of a flat tree. -/
theorem isFlatList_flatten_of_listOf {settings : Settings} (hf : settings.flat = false)
    (hcl : settings.checkClose = true) (hx : ReadsFlattened item) {opener node : Node}
    {rest : List Node} {depth : Nat} {later : Cursor} (ho : opener.isLiteral "(" = true)
    (hs : Cursor.IsScannable ⟨opener :: rest, depth⟩)
    (he : Cursor.SparesEmpty ⟨opener :: rest, depth⟩)
    (h : listOf settings item ⟨opener :: rest, depth⟩ = .ok node later) :
    node.flatten.IsFlatList := by
  have hopen : opener = .leaf .openParen := Node.eq_leaf_of_isLiteral (by decide) ho
  subst hopen
  rw [listOf_of_open hf item ho] at h
  obtain ⟨-, last, h, -⟩ := nested_eq_ok h
  rw [bind_of_ok (advance_cons _ rest _)] at h
  obtain ⟨inner, middle, hc, h⟩ := bind_eq_ok_iff.1 h
  obtain ⟨closer, after, hclose, h⟩ := bind_eq_ok_iff.1 h
  cases h
  obtain ⟨items, hinner, hne, hitems⟩ := flatten_of_chainRun hx (chainRun_of_chainSeq hc)
    (hs.of_cons _) (he.of_cons _) (he.atClose_eq_false _)
  have hcloser : closer = .leaf .closeParen := by
    obtain ⟨_ | ⟨next, rest'⟩, depth'⟩ := middle
    · cases hclose
    · rw [close_cons, hcl, Bool.true_and] at hclose
      split at hclose
      · cases hclose
      · rename_i hn
        cases hclose
        exact Node.eq_leaf_of_isLiteral (by decide) (by simpa using hn)
  rw [Node.flatten_tree (by decide), List.map_cons, List.map_cons, List.map_cons, hinner, hcloser]
  exact .seq hne hitems

theorem readsFlattened_exprOf {list : Reader Node} (hl : Lossless list)
    {h : Consumes (exprOf list)}
    (hlist : ∀ {opener rest depth node later}, opener.isLiteral "(" = true →
      Cursor.IsScannable ⟨opener :: rest, depth⟩ → Cursor.SparesEmpty ⟨opener :: rest, depth⟩ →
      list ⟨opener :: rest, depth⟩ = .ok node later → node.flatten.IsFlatList) :
    ReadsFlattened ⟨exprOf list, h⟩ := by
  refine ⟨lossless_exprOf hl, fun cursor node later hs he hr => ?_⟩
  obtain ⟨next, rest, child, hcursor, rfl, hchild⟩ := exprOf_eq_ok hr
  rw [hcursor] at hs he hchild ⊢
  have hflatten : (Node.tree .sexpr [child]).flatten = .tree .sexpr [child.flatten] :=
    Node.flatten_tree (by decide) _
  rcases hs.head with ⟨token, ha, rfl⟩ | rfl | rfl
  · rcases hchild with ⟨ho, -⟩ | ⟨-, rfl⟩ | ⟨hk, -⟩
    · rw [ha.isLiteral] at ho
      cases ho
    · refine ⟨fun _ => .atom ha.1, fun hclose => ?_⟩
      exact absurd ((ha.isLiteral ")").symm.trans hclose) (by decide)
    · rw [ha.isLiteral] at hk
      cases hk
  · rcases hchild with ⟨ho, hc⟩ | ⟨hk, -⟩ | ⟨hk, -⟩
    · rw [hflatten]
      exact ⟨fun _ => .list (hlist ho hs he hc), fun hclose => by cases hclose⟩
    · cases hk
    · cases hk
  · rcases hchild with ⟨ho, -⟩ | ⟨hk, -⟩ | ⟨-, rfl⟩
    · cases ho
    · cases hk
    · exact ⟨(fun hclose => by cases hclose), fun _ => rfl⟩

theorem readsFlattened_listWithin [CallStack] {settings : Settings} (hf : settings.flat = false)
    (hc : settings.checkClose = true) :
    ∀ (room : Nat) (h : Consumes (exprOf (listWithin settings room).read)),
      ReadsFlattened ⟨exprOf (listWithin settings room).read, h⟩
  | 0, _ =>
    readsFlattened_exprOf (lossless_listWithin settings 0) fun ho _ _ hl =>
      absurd hl (listOf_starved_ne_ok hf ho)
  | room + 1, _ =>
    readsFlattened_exprOf (lossless_listWithin settings (room + 1)) fun ho hs he hl =>
      isFlatList_flatten_of_listOf hf hc (readsFlattened_listWithin hf hc room _) ho hs he hl

theorem isFlat_flatten_of_programFrom (hx : ReadsFlattened item) {cursor last : Cursor}
    {tree : Node} (h : programFrom item [] cursor = .ok tree last) (hs : cursor.IsScannable)
    (he : cursor.SparesEmpty) : tree.flatten.IsFlat := by
  have hpost : ∀ ⦃cursor node later⦄, cursor.IsScannable ∧ cursor.SparesEmpty →
      item.read cursor = .ok node later →
        (node.flatten.IsFlatExpr ∨ node = .stray) ∧ later.IsScannable ∧ later.SparesEmpty := by
    rintro cursor node later ⟨hs, he⟩ hr
    obtain ⟨hflat, hstray⟩ := hx.2 hs he hr
    refine ⟨?_, hs.of_takes hx.1 hr, he.of_takes hx.1 hr⟩
    cases hc : cursor.atClose with
    | true => exact Or.inr (hstray hc)
    | false => exact Or.inl (hflat hc)
  obtain ⟨children, rfl, hchildren⟩ :=
    forall_of_programFrom hpost h ⟨hs, he⟩ fun _ hn => absurd hn List.not_mem_nil
  refine ⟨_, Node.flatten_tree (by decide) children, fun node hn => ?_⟩
  obtain ⟨child, hc, rfl⟩ := List.mem_map.1 hn
  rcases hchildren child hc with hflat | rfl
  · exact Or.inl hflat
  · exact Or.inr rfl

end Reader

namespace Program

/-- What is read without flat sequences, each list up to a `)`, is read with flat sequences to the
flattened tree, under the same limit, if no `(` stands right before a `)`. -/
theorem read_flatten_of_read [CallStack] {chained flat : Options} {settings : Settings}
    (hc : chained.settings = .ok settings) (hcl : settings.checkClose = true)
    (hcf : settings.flat = false) (checkClose : Bool)
    (hf : flat.settings = .ok { checkClose, flat := true, maxDepth := settings.maxDepth })
    {tokens : List Token} (hs : ∀ token ∈ tokens, token.IsScannable)
    (he : ¬ [Token.openParen, .closeParen] <:+: tokens) {tree : Node}
    (h : read (tokens.map .leaf) chained = .ok tree) :
    read (tokens.map .leaf) flat = .ok tree.flatten := by
  obtain ⟨settings', last, hsettings, hp⟩ := read_eq_ok_iff.1 h
  cases hc.symm.trans hsettings
  have hscan := Cursor.isScannable_map_leaf hs 0
  have hflat : tree.flatten.IsFlat := Reader.isFlat_flatten_of_programFrom
    (Reader.readsFlattened_listWithin hcf hcl _ _) hp hscan (Cursor.sparesEmpty_map_leaf he 0)
  have hn : tree.flatten.nesting ≤ CallStack.room := by
    rw [Node.nesting_flatten]
    exact (Reader.isProgram_of_programFrom (Reader.readsExprs_expr hcf) hp hscan
      fun _ hm => absurd hm List.not_mem_nil).2
  -- without the limit the flattened tree is read back from its leaves, which are the tokens
  have hfree : Options.settings (.ready { checkClose, flat := true }) =
      .ok (Settings.unlimited { checkClose, flat := true, maxDepth := settings.maxDepth }) := rfl
  have hread := read_leaves_of_isFlat rfl rfl hfree hflat (hflat.nesting_sexpr_le hn)
  rw [Node.leaves_flatten, leaves_of_read_tokens h] at hread
  refine (read_eq_ok_iff_admits hf hfree).2 ⟨hread, ?_⟩
  rw [Node.nesting_flatten]
  exact admits_of_read hc h

end Program

end SexprReader
