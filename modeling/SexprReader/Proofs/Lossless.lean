import SexprReader.Proofs.Frontier
import SexprReader.Proofs.Runs
import SexprReader.Program
import SexprReader.Reader.Step

/-!
# Reading loses nothing

A reader that gives a result has taken nodes from the front and has left the depth as it was;
`Takes` adds what it says about the nodes taken and the result.  A reader of a node is `Lossless` if
the leaves of the result are the leaves of the nodes taken, in order.  Every reader of the library
is, in both modes and under all settings: also where a `)` stands for an atom, where a `(` ends a
list, and where a sequence gets an extra one.

The chained reader keeps the sequences that wait for their end, so its invariant is about them too:
`Pending.leavesAll` are the leaves that they hold, the outermost first, and finishing a sequence moves
leaves between them and loses none (`leaves_finish`).

Over a fixed sequence of nodes a cursor is an index and a depth (`Cursor.ofIndex`), and the nodes
taken are those between two indices (`Lossless.span`).
-/

namespace SexprReader

namespace Pending

/-- The leaves that a waiting sequence has so far. -/
def leaves : Pending → List Token
  | awaitsNested head => head.leaves
  | awaitsExtra head nested => head.leaves ++ nested.leaves

/-- The leaves that waiting sequences have so far, the outermost first. -/
def leavesAll : List Pending → List Token
  | [] => []
  | pending :: outer => leavesAll outer ++ pending.leaves

end Pending

namespace Reader

variable {α β : Type}

/-- Whenever the reader gives a result, it has taken nodes from the front, the depth is as before,
and `post` holds of these nodes and the result. -/
def Takes (reader : Reader α) (post : List Node → α → Prop) : Prop :=
  ∀ ⦃cursor a later⦄, reader cursor = .ok a later →
    ∃ taken, cursor.rest = taken ++ later.rest ∧ later.depth = cursor.depth ∧ post taken a

/-- The result has the leaves of the nodes taken. -/
def Lossless (reader : Reader Node) : Prop :=
  Takes reader fun taken node => node.leaves = Node.leavesAll taken

/-! ### Rules for `Takes` -/

theorem Takes.mono {reader : Reader α} {post post' : List Node → α → Prop} (h : Takes reader post)
    (hp : ∀ taken a, post taken a → post' taken a) : Takes reader post' := by
  intro cursor a later he
  obtain ⟨taken, hr, hd, hpost⟩ := h he
  exact ⟨taken, hr, hd, hp _ _ hpost⟩

theorem takes_pure {a : α} {post : List Node → α → Prop} (h : post [] a) :
    Takes (pure a) post := by
  intro cursor b later he
  cases he
  exact ⟨[], rfl, rfl, h⟩

theorem takes_fail (cause : GrammarFault) (post : List Node → α → Prop) :
    Takes (fail cause) post := by
  intro cursor a later he
  cases he

theorem Takes.bind {first : Reader α} {next : α → Reader β} {post₁ : List Node → α → Prop}
    {post₂ : List Node → β → Prop} (h₁ : Takes first post₁)
    (h₂ : ∀ a, Takes (next a) fun taken b => ∀ before, post₁ before a → post₂ (before ++ taken) b) :
    Takes (first >>= next) post₂ := by
  intro cursor b last he
  obtain ⟨a, later, hf, hn⟩ := bind_eq_ok_iff.1 he
  obtain ⟨before, hr₁, hd₁, hp₁⟩ := h₁ hf
  obtain ⟨taken, hr₂, hd₂, hp₂⟩ := h₂ a hn
  refine ⟨before ++ taken, ?_, hd₂.trans hd₁, hp₂ before hp₁⟩
  rw [hr₁, hr₂, List.append_assoc]

theorem takes_peek : Takes peek fun taken _ => taken = [] := by
  rintro ⟨_ | ⟨node, rest⟩, depth⟩ a later he <;> cases he
  exact ⟨[], rfl, rfl, rfl⟩

theorem takes_get : Takes get fun taken _ => taken = [] := by
  intro cursor a later he
  cases he
  exact ⟨[], rfl, rfl, rfl⟩

theorem takes_advance : Takes advance fun taken node => taken = [node] := by
  rintro ⟨_ | ⟨node, rest⟩, depth⟩ a later he <;> cases he
  exact ⟨[node], rfl, rfl, rfl⟩

/-! ### Single nodes -/

theorem lossless_advance : Lossless advance := by
  refine takes_advance.mono fun taken node ht => ?_
  rw [ht]
  rfl

theorem lossless_close (settings : Settings) : Lossless (close settings) := by
  refine lossless_advance.bind fun node => ?_
  split
  · exact takes_fail _ _
  · exact takes_pure fun before hb => by rw [hb, List.append_nil]

theorem lossless_atom : Lossless atom := by
  intro cursor node later h
  obtain ⟨next, hr, hd, hn⟩ := atom_eq_ok h
  refine ⟨[next], hr, hd, ?_⟩
  rcases hn with ⟨-, rfl⟩ | ⟨-, rfl⟩ <;> simp

/-! ### Chained sequences -/

/-- Handing a finished sequence to the waiting ones keeps all leaves in their order. -/
theorem leaves_finish (atOpen : Bool) (done : Node) (outer : List Pending) :
    (finish atOpen done outer).elim Node.leaves Pending.leavesAll =
      Pending.leavesAll outer ++ done.leaves := by
  induction outer generalizing done with
  | nil => rfl
  | cons pending outer ih =>
    cases pending with
    | awaitsNested head =>
      rw [finish]
      split
      · simp [Pending.leavesAll, Pending.leaves]
      · simp [ih, Pending.leavesAll, Pending.leaves]
    | awaitsExtra head nested =>
      rw [finish, ih]
      simp [Pending.leavesAll, Pending.leaves]

theorem leaves_settle (next head : Node) (outer : List Pending) :
    (settle next head outer).elim Node.leaves Pending.leavesAll =
      Pending.leavesAll outer ++ head.leaves := by
  rw [settle]
  split
  · rw [leaves_finish, Node.leaves_tree_singleton]
  · rfl

theorem takes_chainFrom {item : Item} (hi : Lossless item.read) (head : Node)
    (outer : List Pending) :
    Takes (chainFrom item head outer) fun taken node =>
      node.leaves = Pending.leavesAll outer ++ head.leaves ++ Node.leavesAll taken := by
  intro cursor node last h
  -- the leaves of the waiting sequences and of the last expression are those read so far
  fun_induction chainFrom item head outer cursor with
  | case1 => cases h
  | case2 head outer cursor next rest _ done hs =>
    cases h
    have hl := leaves_settle next head outer
    rw [hs] at hl
    refine ⟨[], rfl, rfl, ?_⟩
    show node.leaves = _
    rw [← hl, Node.leavesAll_nil, List.append_nil]
    rfl
  | case3 => cases h
  | case4 head outer cursor next rest _ outer' hs head' cursor' hr ih =>
    obtain ⟨taken₁, hr₁, hd₁, hl₁⟩ := hi hr
    obtain ⟨taken₂, hr₂, hd₂, hl₂⟩ := ih h
    have hl := leaves_settle next head outer
    rw [hs] at hl
    refine ⟨taken₁ ++ taken₂, by rw [hr₁, hr₂, List.append_assoc], hd₂.trans hd₁, ?_⟩
    show node.leaves = _
    rw [hl₂, Node.leavesAll_append, ← hl₁, ← hl]
    simp

theorem lossless_chainSeq {item : Item} (hi : Lossless item.read) : Lossless (chainSeq item) := by
  refine hi.bind fun head => (takes_chainFrom hi head []).mono fun taken node hn before hb => ?_
  rw [hn, hb, Node.leavesAll_append]
  rfl

/-! ### Flat sequences, lists and programs -/

/-- An expression that is found has the leaves of the nodes it was read from. -/
theorem leavesAll_found_cons {head : Node} {found taken₁ : List Node} (taken₂ : List Node)
    (h : head.leaves = Node.leavesAll taken₁) :
    Node.leavesAll ((head :: found).reverse ++ taken₂) =
      Node.leavesAll (found.reverse ++ (taken₁ ++ taken₂)) := by
  simp [h]

theorem takes_flatFrom {item : Item} (hi : Lossless item.read) (found : List Node) :
    Takes (flatFrom item found) fun taken node =>
      node.leaves = Node.leavesAll (found.reverse ++ taken) := by
  intro cursor node last h
  fun_induction flatFrom item found cursor with
  | case1 found cursor =>
    cases h
    refine ⟨[], rfl, rfl, ?_⟩
    show Node.leaves _ = _
    rw [List.append_nil, Node.leaves_tree]
  | case2 => cases h
  | case3 found cursor _ head cursor' hr ih =>
    obtain ⟨taken₁, hr₁, hd₁, hl₁⟩ := hi hr
    obtain ⟨taken₂, hr₂, hd₂, hl₂⟩ := ih h
    refine ⟨taken₁ ++ taken₂, by rw [hr₁, hr₂, List.append_assoc], hd₂.trans hd₁, ?_⟩
    exact hl₂.trans (leavesAll_found_cons taken₂ hl₁)

theorem lossless_flatSeq {item : Item} (hi : Lossless item.read) : Lossless (flatSeq item) := by
  refine hi.bind fun head => (takes_flatFrom hi [head]).mono fun taken node hn before hb => ?_
  rw [hn, Node.leavesAll_append, Node.leavesAll_append, List.reverse_singleton,
    Node.leavesAll_cons, Node.leavesAll_nil, List.append_nil, hb]

theorem lossless_seq (settings : Settings) {item : Item} (hi : Lossless item.read) :
    Lossless (seq settings item) := by
  unfold seq
  split
  · exact lossless_flatSeq hi
  · exact lossless_chainSeq hi

theorem takes_body (settings : Settings) {item : Item} (hi : Lossless item.read) :
    Takes (body settings item) fun taken held =>
      Node.leavesAll held = Node.leavesAll taken := by
  refine takes_get.bind fun cursor => ?_
  split
  · exact takes_pure fun before hb => by rw [hb, List.append_nil]
  · refine (lossless_seq settings hi).bind fun node => takes_pure fun before hn taken ht => ?_
    rw [ht, Node.leavesAll_cons, hn]
    simp

theorem takes_expectOpen : Takes expectOpen fun taken _ => taken = [] := by
  refine takes_peek.bind fun node => ?_
  split
  · exact takes_pure fun before hb => by rw [hb, List.append_nil]
  · exact takes_fail _ _

/-- A list is read one level deeper, and the level is given back. -/
theorem Takes.nested {inner : Reader α} {post : List Node → α → Prop} (settings : Settings)
    (h : Takes inner post) : Takes (Reader.nested settings inner) post := by
  intro cursor a later he
  simp only [Reader.nested] at he
  split at he
  · cases he
  · cases he
  · split at he
    · rename_i hi
      cases he
      obtain ⟨taken, hr, hd, hp⟩ := h hi
      exact ⟨taken, hr, by simp only [hd, Nat.add_sub_cancel], hp⟩
    · cases he

theorem lossless_listOf (settings : Settings) {item : Item} (hi : Lossless item.read) :
    Lossless (listOf settings item) := by
  refine takes_expectOpen.bind fun _ => Takes.nested settings ?_
  refine lossless_advance.bind fun opener => (takes_body settings hi).bind fun held => ?_
  refine (lossless_close settings).bind fun closer => takes_pure ?_
  intro taken₄ hc taken₃ hh taken₂ ho taken₁ ht
  rw [ht, Node.leaves_tree]
  simp [hc, hh, ho]

theorem takes_sexpr {reader : Reader Node} (hr : Lossless reader) :
    Lossless (reader >>= fun child => pure (.tree .sexpr [child])) := by
  refine hr.bind fun child => takes_pure fun taken ht => ?_
  rw [List.append_nil, Node.leaves_tree_singleton, ht]

theorem lossless_exprOf {list : Reader Node} (hl : Lossless list) : Lossless (exprOf list) := by
  refine takes_peek.bind fun next => ?_
  have hc : Lossless (if next.isLiteral "(" then list >>= fun child => pure (.tree .sexpr [child])
      else atom >>= fun child => pure (.tree .sexpr [child])) := by
    split
    · exact takes_sexpr hl
    · exact takes_sexpr lossless_atom
  exact hc.mono fun taken node hn before hb => by rw [hb, List.nil_append, hn]

theorem takes_programFrom {item : Item} (hi : Lossless item.read) (found : List Node) :
    Takes (programFrom item found) fun taken node =>
      node.leaves = Node.leavesAll (found.reverse ++ taken) := by
  intro cursor node last h
  fun_induction programFrom item found cursor with
  | case1 found cursor hn =>
    cases h
    refine ⟨[], rfl, rfl, ?_⟩
    show Node.leaves _ = _
    rw [List.append_nil, Node.leaves_tree]
  | case2 => cases h
  | case3 found cursor _ _ _ head cursor' hr ih =>
    obtain ⟨taken₁, hr₁, hd₁, hl₁⟩ := hi hr
    obtain ⟨taken₂, hr₂, hd₂, hl₂⟩ := ih h
    refine ⟨taken₁ ++ taken₂, by rw [hr₁, hr₂, List.append_assoc], hd₂.trans hd₁, ?_⟩
    exact hl₂.trans (leavesAll_found_cons taken₂ hl₁)

/-- A program ends where the nodes end. -/
theorem rest_eq_nil_of_programFrom {item : Item} {found : List Node} {cursor last : Cursor}
    {node : Node} (h : programFrom item found cursor = .ok node last) : last.rest = [] := by
  fun_induction programFrom item found cursor with
  | case1 found cursor hn =>
    cases h
    exact hn
  | case2 => cases h
  | case3 _ _ _ _ _ _ _ _ ih => exact ih h

section Bounded

variable [CallStack]

theorem takes_starved (post : List Node → Node → Prop) : Takes starved post := by
  intro cursor node later h
  rw [starved_eq] at h
  cases h

theorem lossless_listWithin (settings : Settings) (room : Nat) :
    Lossless (listWithin settings room).read := by
  induction room with
  | zero => exact lossless_listOf settings (takes_starved _)
  | succ room ih => exact lossless_listOf settings (lossless_exprOf ih)

theorem lossless_list (settings : Settings) : Lossless (list settings) :=
  lossless_listWithin settings CallStack.room

theorem lossless_expr (settings : Settings) : Lossless (expr settings).read :=
  lossless_exprOf (lossless_list settings)

theorem lossless_program (settings : Settings) : Lossless (program settings) :=
  (takes_programFrom (lossless_expr settings) []).mono fun _ _ h => h

end Bounded

end Reader

/-! ### Indices -/

/-- The cursor before the node of index `i`, inside of `depth` lists. -/
def Cursor.ofIndex (nodes : List Node) (i depth : Nat) : Cursor := ⟨nodes.drop i, depth⟩

namespace Reader

/-- A lossless reader goes from one index to another, and has the leaves of the nodes between. -/
theorem Lossless.span {reader : Reader Node} (h : Lossless reader) {nodes : List Node}
    {i depth : Nat} (hi : i ≤ nodes.length) {node : Node} {later : Cursor}
    (he : reader (.ofIndex nodes i depth) = .ok node later) :
    ∃ j, i ≤ j ∧ j ≤ nodes.length ∧ later = .ofIndex nodes j depth ∧
      node.leaves = ((nodes.drop i).take (j - i)).flatMap Node.leaves := by
  obtain ⟨taken, hr, hd, hl⟩ := h he
  change nodes.drop i = taken ++ later.rest at hr
  change later.depth = depth at hd
  have hlen : nodes.length - i = taken.length + later.rest.length := by
    rw [← List.length_drop, hr, List.length_append]
  have hrest : nodes.drop (i + taken.length) = later.rest := by
    rw [← List.drop_drop, hr, List.drop_left]
  refine ⟨i + taken.length, by omega, by omega, ?_, ?_⟩
  · rw [Cursor.ofIndex, hrest, ← hd]
  · rw [Nat.add_sub_cancel_left, hr, List.take_left, hl, Node.leavesAll_eq_flatMap]

/-- A reader that takes a node leaves the cursor at a later index. -/
theorem Consumes.lt_of_ofIndex {α : Type} {reader : Reader α} (h : Consumes reader)
    {nodes : List Node} {i j depth depth' : Nat} {a : α}
    (he : reader (.ofIndex nodes i depth) = .ok a (.ofIndex nodes j depth')) : i < j := by
  have hlt := h he
  simp only [Cursor.ofIndex, List.length_drop] at hlt
  omega

end Reader

/-! ### Steps and programs -/

section Bounded

variable [CallStack]

namespace Step

/-- The step takes nodes, and does not only look at what comes next. -/
def takesNodes : Step → Bool
  | peek | atEnd | atClose => false
  | _ => true

/-- A step that takes nodes runs a lossless reader, and only a program may be empty. -/
theorem exists_lossless_reader (settings : Settings) {step : Step} (h : step.takesNodes = true) :
    ∃ reader, step.reader settings = (.node <$> reader) ∧ Reader.Lossless reader ∧
      (step ≠ .program → Reader.Consumes reader) := by
  cases step with
  | program => exact ⟨_, rfl, Reader.lossless_program settings, fun hp => absurd rfl hp⟩
  | expr => exact ⟨_, rfl, Reader.lossless_expr settings, fun _ => (Reader.expr settings).consumes⟩
  | list =>
    exact ⟨_, rfl, Reader.lossless_list settings,
      fun _ => (Reader.listWithin settings CallStack.room).consumes⟩
  | seq =>
    exact ⟨_, rfl, Reader.lossless_seq settings (Reader.lossless_expr settings),
      fun _ => Reader.consumes_seq settings _⟩
  | flatSeq =>
    exact ⟨_, rfl, Reader.lossless_flatSeq (Reader.lossless_expr settings),
      fun _ => Reader.consumes_flatSeq _⟩
  | atom => exact ⟨_, rfl, Reader.lossless_atom, fun _ => Reader.consumes_atom⟩
  | close =>
    exact ⟨_, rfl, Reader.lossless_close settings, fun _ => Reader.consumes_close settings⟩
  | advance => exact ⟨_, rfl, Reader.lossless_advance, fun _ => Reader.consumes_advance⟩
  | peek => exact absurd h (by decide)
  | atEnd => exact absurd h (by decide)
  | atClose => exact absurd h (by decide)

/-- A step that takes nodes replies with a node that has the leaves of the nodes it has taken. -/
theorem span_of_run {settings : Settings} {step : Step} (hs : step.takesNodes = true)
    {nodes : List Node} {i depth : Nat} (hi : i ≤ nodes.length) {reply : Reply} {later : Cursor}
    (h : step.run settings (.ofIndex nodes i depth) = (.ok reply, later)) :
    ∃ node j, reply = .node node ∧ i ≤ j ∧ j ≤ nodes.length ∧ (step ≠ .program → i < j) ∧
      later = .ofIndex nodes j depth ∧
      node.leaves = ((nodes.drop i).take (j - i)).flatMap Node.leaves := by
  obtain ⟨reader, hr, hl, hc⟩ := exists_lossless_reader settings hs
  have hrun : step.reader settings (.ofIndex nodes i depth) = .ok reply later := by
    rw [run] at h
    split at h <;> cases h
    assumption
  rw [hr] at hrun
  obtain ⟨node, later', he, hn⟩ := Reader.bind_eq_ok_iff.1 hrun
  cases hn
  obtain ⟨j, hij, hj, rfl, hx⟩ := hl.span hi he
  exact ⟨node, j, rfl, hij, hj, fun hp => (hc hp).lt_of_ofIndex he, rfl, hx⟩

end Step

namespace Program

/-- The leaves of a program are the leaves of the nodes it was read from. -/
theorem leaves_of_read {nodes : List Node} {options : Options} {tree : Node}
    (h : read nodes options = .ok tree) : tree.leaves = nodes.flatMap Node.leaves := by
  obtain ⟨settings, last, -, hp⟩ := read_eq_ok_iff.1 h
  obtain ⟨taken, hr, -, hl⟩ := Reader.lossless_program settings hp
  rw [Reader.rest_eq_nil_of_programFrom hp, List.append_nil] at hr
  rw [hl, ← hr, Node.leavesAll_eq_flatMap]

/-- What tokens are read to has them as its leaves. -/
theorem leaves_of_read_tokens {tokens : List Token} {options : Options} {tree : Node}
    (h : read (tokens.map .leaf) options = .ok tree) : tree.leaves = tokens := by
  rw [leaves_of_read h, ← Node.leavesAll_eq_flatMap, Node.leavesAll_map_leaf]

end Program

/-- Nothing is lost, doubled or moved: from every cursor a step that takes nodes replies with the
leaves of the nodes it has taken, in order, and a program that is read from tokens has just these
leaves. -/
theorem leaves_of_run_and_read :
    (∀ (settings : Settings) (step : Step) (nodes : List Node) (i depth : Nat) (reply : Reply)
      (later : Cursor), step.takesNodes = true → i ≤ nodes.length →
      step.run settings (.ofIndex nodes i depth) = (.ok reply, later) →
      ∃ node j, reply = .node node ∧ i ≤ j ∧ j ≤ nodes.length ∧ (step ≠ .program → i < j) ∧
        later = .ofIndex nodes j depth ∧
        node.leaves = ((nodes.drop i).take (j - i)).flatMap Node.leaves) ∧
    (∀ (tokens : List Token) (options : Options) (tree : Node),
      Program.read (tokens.map .leaf) options = .ok tree → tree.leaves = tokens) := by
  constructor
  · intro settings step nodes i depth reply later hs hi h
    exact Step.span_of_run hs hi h
  · intro tokens options tree h
    rw [Program.leaves_of_read h, ← Node.leavesAll_eq_flatMap, Node.leavesAll_map_leaf]

end Bounded

/-- A list that ends at a `(` and holds a tree in the place of a token, read behind the first node,
and a program of a bare `)`. -/
theorem leaves_of_run_and_read_open_as_closer :
    let inner : Node := .tree .integer [.leaf ⟨.integer, "7"⟩, .leaf ⟨.integer, "8"⟩]
    let nodes : List Node :=
      [.leaf ⟨.identifier, "a"⟩, .leaf ⟨.literal, "("⟩, inner, .leaf ⟨.literal, "("⟩,
        .leaf ⟨.identifier, "b"⟩]
    let list : Node := .tree .list
      [.leaf ⟨.literal, "("⟩, .tree .seq [.tree .sexpr [.tree .atom [inner]]],
        .leaf ⟨.literal, "("⟩]
    (∃ node j, Reply.node list = .node node ∧ 1 ≤ j ∧ j ≤ nodes.length ∧
      (Step.list ≠ .program → 1 < j) ∧ Cursor.ofIndex nodes 4 2 = .ofIndex nodes j 2 ∧
      node.leaves = ((nodes.drop 1).take (j - 1)).flatMap Node.leaves) ∧
    (Node.tree .program [.tree .sexpr [.leaf ⟨.literal, ")"⟩]]).leaves = [⟨.literal, ")"⟩] := by
  intro inner nodes list
  have hrun : Step.list.run {} (.ofIndex nodes 1 2) = (.ok (.node list), .ofIndex nodes 4 2) :=
    Prod.ext (eq_ok_of_toOption (by decide +kernel)) (by decide +kernel)
  have hread : Program.read ([⟨.literal, ")"⟩].map .leaf) (.loose .null) =
      .ok (.tree .program [.tree .sexpr [.leaf ⟨.literal, ")"⟩]]) :=
    eq_ok_of_toOption (by decide +kernel)
  exact ⟨leaves_of_run_and_read.1 _ _ _ _ _ _ _ rfl (by decide) hrun,
    leaves_of_run_and_read.2 _ _ _ hread⟩

end SexprReader
