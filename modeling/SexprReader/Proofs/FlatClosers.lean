import SexprReader.Proofs.FlatReading
import SexprReader.Proofs.Strictness

/-!
# Flat lists end at a `)`

Settings may ask that a list ends at a `)`.  By settings that do not ask, no reader stops because one
is missing (`Reader.Lenient`).  By settings that do, a list that is read ends at one, and so do all
lists in a result but those that were given (`Reader.Closing`).

The loop of a flat sequence leaves off before a `)`, and a list that holds no sequence has one next
(`Reader.atClose_of_body`).  So what ends a flat list is a `)` anyway, and the readers that ask are the
readers that do not (`Reader.listWithin_asking`).  They have both properties, whatever the settings ask
(`Program.read_flat_asking`).
-/

namespace SexprReader

/-! ### The wording -/

/-- Texts with other first letters are not the same, whatever is behind these. -/
theorem ofList_append_ne {c d : Char} (h : c ≠ d) (cs ds : List Char) (rest : String) :
    String.ofList (c :: cs) ++ rest ≠ String.ofList (d :: ds) := by
  intro he
  have hc := congrArg String.toList he
  simp only [String.toList_append, String.toList_ofList, List.cons_append, List.cons.injEq] at hc
  exact h hc.1

theorem SettingsFault.message_ne_expectedClose (cause : SettingsFault) :
    cause.message ≠ "expected ')'" := by
  cases cause with
  | unsupported | notInteger => exact ofList_append_ne (by decide) _ _ _
  | unknown | tooManyDigits | noInteger | incomparable =>
    dsimp only [message]
    simp only [String.append_assoc]
    exact ofList_append_ne (by decide) _ _ _
  | infinite | notANumber =>
    dsimp only [message]
    simp

/-- The wording of a missing `)` is that of no other fault. -/
theorem ReadFault.eq_expectedClose_of_message {fault : ReadFault}
    (h : fault.message = "expected ')'") : fault = .grammar .expectedClose := by
  cases fault with
  | grammar cause =>
    cases cause with
    | expectedClose => rfl
    | _ => simp [message, GrammarFault.message] at h
  | settings cause => exact absurd h cause.message_ne_expectedClose

/-! ### What is asked -/

/-- The same settings, which ask that lists end at a `)` or do not. -/
def Settings.asking (settings : Settings) (checkClose : Bool) : Settings :=
  { settings with checkClose }

namespace Node

/-- The last child of the list is a `)`. -/
def EndsAtClose (list : Node) : Prop :=
  ∃ closer ∈ list.children.getLast?, closer.isLiteral ")" = true

/-- All lists in the nodes end at a `)`. -/
def AllClose (nodes : List Node) : Prop := ∀ node ∈ nodes, node.ListsClose

theorem allClose_nil : AllClose [] := nofun

theorem allClose_cons {node : Node} {rest : List Node} :
    AllClose (node :: rest) ↔ node.ListsClose ∧ AllClose rest :=
  List.forall_mem_cons

theorem allClose_append {as bs : List Node} : AllClose (as ++ bs) ↔ AllClose as ∧ AllClose bs :=
  List.forall_mem_append

/-- Of a tree that is no list, the same is asked as of its children. -/
theorem listsClose_tree_iff {category : Category} (h : category ≠ .list) {children : List Node} :
    (tree category children).ListsClose ↔ AllClose children := by
  rw [listsClose_tree]
  exact and_iff_right fun hc => absurd hc h

end Node

namespace Reader

open Node (AllClose allClose_nil allClose_cons allClose_append listsClose_tree_iff)

variable {α β : Type} {settings : Settings} {item : Item}

/-! ### Readers that do not ask -/

/-- The reader never stops because a `)` is missing at the end of a list. -/
def Lenient (reader : Reader α) : Prop :=
  ∀ ⦃cursor later⦄, reader cursor ≠ .error (.grammar .expectedClose) later

section Rules

variable {first : Reader α} {next : α → Reader β}

theorem lenient_pure (a : α) : Lenient (pure a) := nofun

theorem lenient_fail {cause : GrammarFault} (h : cause ≠ .expectedClose) :
    Lenient (fail cause : Reader α) := by
  intro cursor later he
  cases he
  exact h rfl

theorem lenient_overflow : Lenient (overflow : Reader α) := nofun

theorem lenient_peek : Lenient peek := by
  rintro ⟨_ | ⟨node, rest⟩, depth⟩ later he <;> cases he

theorem lenient_advance : Lenient advance := by
  rintro ⟨_ | ⟨node, rest⟩, depth⟩ later he <;> cases he

theorem lenient_get : Lenient (get : Reader Cursor) := nofun

theorem Lenient.bind (h : Lenient first) (hn : ∀ a, Lenient (next a)) :
    Lenient (first >>= next) := by
  intro cursor later he
  cases hf : first cursor with
  | ok a middle =>
    rw [bind_of_ok hf] at he
    exact hn a he
  | error fault middle =>
    rw [bind_of_error hf] at he
    cases he
    exact h hf

theorem Lenient.map (h : Lenient first) (f : α → β) : Lenient (f <$> first) :=
  h.bind fun a => lenient_pure (f a)

theorem Lenient.nested (h : Lenient first) : Lenient (Reader.nested settings first) := by
  rintro ⟨rest, depth⟩ later he
  simp only [Reader.nested] at he
  split at he
  · cases he
  · cases he
  · split at he
    · cases he
    · rename_i hi
      cases he
      exact h hi

end Rules

theorem lenient_close (hc : settings.checkClose = false) : Lenient (close settings) := by
  refine lenient_advance.bind fun node => ?_
  rw [hc, if_neg (by simp)]
  exact lenient_pure node

theorem lenient_atom : Lenient atom := by
  refine lenient_peek.bind fun node => ?_
  split
  · exact lenient_advance.bind fun _ => lenient_pure _
  · split
    · exact lenient_advance.bind fun _ => lenient_pure _
    · exact lenient_fail (by decide)

theorem lenient_expectOpen : Lenient expectOpen := by
  refine lenient_peek.bind fun node => ?_
  split
  · exact lenient_pure _
  · exact lenient_fail (by decide)

theorem lenient_chainFrom (hi : Lenient item.read) (head : Node) (outer : List Pending) :
    Lenient (chainFrom item head outer) := by
  intro cursor later h
  fun_induction chainFrom item head outer cursor with
  | case1 => cases h
  | case2 => cases h
  | case3 _ _ _ _ _ _ _ _ _ _ hr =>
    cases h
    exact hi hr
  | case4 _ _ _ _ _ _ _ _ _ _ _ ih => exact ih h

theorem lenient_flatFrom (hi : Lenient item.read) (found : List Node) :
    Lenient (flatFrom item found) := by
  intro cursor later h
  fun_induction flatFrom item found cursor with
  | case1 => cases h
  | case2 _ _ _ _ _ hr =>
    cases h
    exact hi hr
  | case3 _ _ _ _ _ _ ih => exact ih h

theorem lenient_flatSeq (hi : Lenient item.read) : Lenient (flatSeq item) :=
  hi.bind fun head => lenient_flatFrom hi [head]

theorem lenient_seq (hi : Lenient item.read) : Lenient (seq settings item) := by
  unfold seq
  split
  · exact lenient_flatSeq hi
  · exact hi.bind fun head => lenient_chainFrom hi head []

theorem lenient_body (hi : Lenient item.read) : Lenient (body settings item) := by
  refine lenient_get.bind fun cursor => ?_
  split
  · exact lenient_pure _
  · exact (lenient_seq hi).bind fun _ => lenient_pure _

theorem lenient_listOf (hc : settings.checkClose = false) (hi : Lenient item.read) :
    Lenient (listOf settings item) := by
  refine lenient_expectOpen.bind fun _ => Lenient.nested ?_
  refine lenient_advance.bind fun opener => (lenient_body hi).bind fun held => ?_
  exact (lenient_close hc).bind fun _ => lenient_pure _

theorem lenient_exprOf {list : Reader Node} (h : Lenient list) : Lenient (exprOf list) := by
  refine lenient_peek.bind fun node => ?_
  dsimp only
  split
  · exact h.bind fun _ => lenient_pure _
  · exact lenient_atom.bind fun _ => lenient_pure _

section Bounded

variable [CallStack]

theorem lenient_starved : Lenient starved := by
  refine lenient_get.bind fun cursor => ?_
  split
  · exact lenient_fail (by decide)
  · exact lenient_overflow

theorem lenient_listWithin (hc : settings.checkClose = false) (room : Nat) :
    Lenient (listWithin settings room).read := by
  induction room with
  | zero => exact lenient_listOf hc lenient_starved
  | succ room ih => exact lenient_listOf hc (lenient_exprOf ih)

end Bounded

theorem lenient_programFrom (hi : Lenient item.read) (found : List Node) :
    Lenient (programFrom item found) := by
  intro cursor later h
  fun_induction programFrom item found cursor with
  | case1 => cases h
  | case2 _ _ _ _ _ _ _ hr =>
    cases h
    exact hi hr
  | case3 _ _ _ _ _ _ _ _ ih => exact ih h

/-! ### Readers that ask -/

/-- If all lists in the nodes taken end at a `)`, then so do all lists in the result. -/
def Closing (reader : Reader Node) : Prop :=
  Takes reader fun taken node => AllClose taken → node.ListsClose

/-- What is taken by two readers, one after the other, is taken by both. -/
theorem Takes.append {first : Reader α} {before : List Node → α → Prop}
    {behind post : List Node → Prop} (h : Takes first before) {cursor middle last : Cursor} {a : α}
    (hf : first cursor = .ok a middle)
    (hl : ∃ taken, middle.rest = taken ++ last.rest ∧ last.depth = middle.depth ∧ behind taken)
    (hp : ∀ taken taken', before taken a → behind taken' → post (taken ++ taken')) :
    ∃ taken, cursor.rest = taken ++ last.rest ∧ last.depth = cursor.depth ∧ post taken := by
  obtain ⟨taken, hr, hd, hbefore⟩ := h hf
  obtain ⟨taken', hr', hd', hbehind⟩ := hl
  refine ⟨taken ++ taken', ?_, hd'.trans hd, hp taken taken' hbefore hbehind⟩
  rw [hr, hr', List.append_assoc]

/-- What a reader of a node goes on with may put the node into its result. -/
theorem Closing.andThen {first : Reader Node} {next : Node → Reader Node} (h : Closing first)
    (hn : ∀ head, Takes (next head) fun taken node =>
      AllClose taken → head.ListsClose → node.ListsClose) : Closing (first >>= next) := by
  refine Takes.bind h fun head => (hn head).mono fun taken node hnode before hhead hall => ?_
  obtain ⟨hbefore, htaken⟩ := allClose_append.1 hall
  exact hnode htaken (hhead hbefore)

theorem takes_close (hc : settings.checkClose = true) :
    Takes (close settings) fun taken closer =>
      taken = [closer] ∧ closer.isLiteral ")" = true := by
  refine takes_advance.bind fun node => ?_
  split
  · exact takes_fail _ _
  · next hn => exact takes_pure fun before hb => ⟨by simpa using hb, by simpa [hc] using hn⟩

theorem closing_atom : Closing atom := by
  intro cursor node later h
  obtain ⟨next, hr, hd, hn⟩ := atom_eq_ok h
  refine ⟨[next], hr, hd, fun hall => ?_⟩
  rcases hn with ⟨-, rfl⟩ | ⟨-, rfl⟩
  · rwa [listsClose_tree_iff (by decide)]
  · exact hall node List.mem_cons_self

theorem takes_chainFrom_closing (hi : Closing item.read) (head : Node) (outer : List Pending) :
    Takes (chainFrom item head outer) fun taken node => AllClose taken →
      head.ListsClose ∧ Pending.All Node.ListsClose outer → node.ListsClose := by
  intro cursor node last h
  -- what a sequence becomes has no other lists than the sequence and those that wait for it
  have hseq (nodes : List Node) : (Node.tree .seq nodes).ListsClose ↔ AllClose nodes :=
    listsClose_tree_iff (by decide)
  have hsettle := all_settle hseq
  fun_induction chainFrom item head outer cursor with
  | case1 => cases h
  | case2 head outer cursor next rest _ done hs =>
    cases h
    have hdone := hsettle next head outer
    rw [hs] at hdone
    exact ⟨[], rfl, rfl, fun _ => hdone.2⟩
  | case3 => cases h
  | case4 head outer cursor next rest _ outer' hs head' cursor' hr ih =>
    have houter := hsettle next head outer
    rw [hs] at houter
    refine hi.append hr (ih h) fun taken taken' hhead hlast hall hx => ?_
    obtain ⟨htaken, htaken'⟩ := allClose_append.1 hall
    exact hlast htaken' ⟨hhead htaken, houter.2 hx⟩

theorem takes_flatFrom_closing (hi : Closing item.read) (found : List Node) :
    Takes (flatFrom item found) fun taken node =>
      AllClose taken → AllClose found → node.ListsClose := by
  intro cursor node last h
  fun_induction flatFrom item found cursor with
  | case1 found cursor =>
    cases h
    refine ⟨[], rfl, rfl, fun _ hfound => ?_⟩
    rw [listsClose_tree_iff (by decide)]
    exact fun node hn => hfound node (List.mem_reverse.1 hn)
  | case2 => cases h
  | case3 found cursor _ head cursor' hr ih =>
    refine hi.append hr (ih h) fun taken taken' hhead hlast hall hfound => ?_
    obtain ⟨htaken, htaken'⟩ := allClose_append.1 hall
    exact hlast htaken' (allClose_cons.2 ⟨hhead htaken, hfound⟩)

theorem closing_seq (hi : Closing item.read) : Closing (seq settings item) := by
  unfold seq
  split
  · refine hi.andThen fun head => (takes_flatFrom_closing hi [head]).mono ?_
    exact fun taken node h hall hhead => h hall (allClose_cons.2 ⟨hhead, allClose_nil⟩)
  · refine hi.andThen fun head => (takes_chainFrom_closing hi head []).mono ?_
    exact fun taken node h hall hhead => h hall ⟨hhead, Pending.all_nil _⟩

theorem takes_body_closing (hi : Closing item.read) :
    Takes (body settings item) fun taken held => AllClose taken → AllClose held := by
  refine takes_get.bind fun cursor => ?_
  split
  · exact takes_pure fun _ _ _ => allClose_nil
  · refine (closing_seq hi).bind fun node => takes_pure fun before hn taken ht hall => ?_
    rw [ht, List.nil_append, List.append_nil] at hall
    exact allClose_cons.2 ⟨hn hall, allClose_nil⟩

/-- A list that is looked at ends at a `)`, and so do the lists in it. -/
theorem takes_listOf_closing (hc : settings.checkClose = true) (hi : Closing item.read) :
    Takes (listOf settings item) fun taken node =>
      node.EndsAtClose ∧ (AllClose taken → node.ListsClose) := by
  refine takes_expectOpen.bind fun _ => Takes.nested settings ?_
  refine takes_advance.bind fun opener => (takes_body_closing hi).bind fun held => ?_
  refine (takes_close hc).bind fun closer => takes_pure ?_
  rintro taken₄ ⟨rfl, hcloser⟩ taken₃ hheld taken₂ rfl taken₁ rfl
  have hends : (Node.tree .list (opener :: held ++ [closer])).EndsAtClose :=
    ⟨closer, by rw [Node.children, List.getLast?_concat]; rfl, hcloser⟩
  refine ⟨hends, fun hall => Node.listsClose_tree.2 ⟨fun _ => hends, ?_⟩⟩
  simp only [List.nil_append, List.append_nil, List.singleton_append, allClose_cons,
    allClose_append] at hall
  obtain ⟨hopener, htaken, hclose, -⟩ := hall
  exact allClose_append.2
    ⟨allClose_cons.2 ⟨hopener, hheld htaken⟩, allClose_cons.2 ⟨hclose, allClose_nil⟩⟩

theorem closing_exprOf {list : Reader Node} (hl : Closing list) : Closing (exprOf list) := by
  have hwrap (child : Node) : Takes (pure (Node.tree .sexpr [child])) fun taken node =>
      AllClose taken → child.ListsClose → node.ListsClose := by
    refine takes_pure fun _ hchild => ?_
    rw [listsClose_tree_iff (by decide)]
    exact allClose_cons.2 ⟨hchild, allClose_nil⟩
  refine takes_peek.bind fun next => ?_
  have hbranch : Closing (
      if next.isLiteral "(" then list >>= fun child => pure (.tree .sexpr [child])
      else atom >>= fun child => pure (.tree .sexpr [child])) := by
    split
    · exact hl.andThen hwrap
    · exact closing_atom.andThen hwrap
  exact hbranch.mono fun taken node hn before hb => by rwa [hb, List.nil_append]

/-- The list and all lists in it end at a `)`. -/
theorem takes_listWithin_closing [CallStack] (hc : settings.checkClose = true) (room : Nat) :
    Takes (listWithin settings room).read fun taken node =>
      node.EndsAtClose ∧ (AllClose taken → node.ListsClose) := by
  induction room with
  | zero => exact takes_listOf_closing hc (takes_starved _)
  | succ room ih => exact takes_listOf_closing hc (closing_exprOf (ih.mono fun _ _ h => h.2))

theorem closing_expr [CallStack] (hc : settings.checkClose = true) : Closing (expr settings).read :=
  closing_exprOf ((takes_listWithin_closing hc CallStack.room).mono fun _ _ h => h.2)

theorem takes_programFrom_closing (hi : Closing item.read) (found : List Node) :
    Takes (programFrom item found) fun taken node =>
      AllClose taken → AllClose found → node.ListsClose := by
  intro cursor node last h
  fun_induction programFrom item found cursor with
  | case1 found cursor =>
    cases h
    refine ⟨[], rfl, rfl, fun _ hfound => ?_⟩
    rw [listsClose_tree_iff (by decide)]
    exact fun node hn => hfound node (List.mem_reverse.1 hn)
  | case2 => cases h
  | case3 found cursor _ _ _ head cursor' hr ih =>
    refine hi.append hr (ih h) fun taken taken' hhead hlast hall hfound => ?_
    obtain ⟨htaken, htaken'⟩ := allClose_append.1 hall
    exact hlast htaken' (allClose_cons.2 ⟨hhead htaken, hfound⟩)

theorem closing_program [CallStack] (hc : settings.checkClose = true) : Closing (program settings) :=
  (takes_programFrom_closing (closing_expr hc) []).mono fun _ _ h hall => h hall allClose_nil

/-! ### Flat readers -/

/-- What a flat list holds ends before a `)`. -/
theorem atClose_of_body (hf : settings.flat = true) {cursor later : Cursor} {held : List Node}
    (h : body settings item cursor = .ok held later) : later.atClose = true := by
  cases hc : cursor.atClose with
  | true =>
    rw [body_of_atClose item hf hc] at h
    cases h
    exact hc
  | false =>
    rw [body_of_not_atClose item hf hc] at h
    obtain ⟨node, last, hseq, h⟩ := bind_eq_ok_iff.1 h
    cases h
    obtain ⟨items, -, hrun⟩ := (flatSeq_eq_ok_iff hc).1 hseq
    exact hrun.atClose

/-- A `)` ends a list, whatever the settings ask. -/
theorem close_asking {cursor : Cursor} (h : cursor.atClose = true) (checkClose : Bool) :
    close (settings.asking checkClose) cursor = close settings cursor := by
  obtain ⟨rest, hr⟩ := Cursor.eq_of_atClose h
  rw [hr, close_of_isClose (by decide), close_of_isClose (by decide)]

theorem listOf_asking (hf : settings.flat = true) (item : Item) (checkClose : Bool) :
    listOf (settings.asking checkClose) item = listOf settings item := by
  have hrest : listRest (settings.asking checkClose) item = listRest settings item := by
    funext opener cursor
    refine bind_congr_at fun held later hb => ?_
    exact bind_congr_left (close_asking (atClose_of_body hf hb) checkClose) _
  have hnested : nested (settings.asking checkClose) (advance >>= listRest settings item) =
      nested settings (advance >>= listRest settings item) := rfl
  show (expectOpen >>= fun _ => nested _ (advance >>= listRest _ item)) = _
  rw [hrest, hnested]
  rfl

/-- Flat lists are read as they are by settings that ask or do not ask how they end. -/
theorem listWithin_asking [CallStack] (hf : settings.flat = true) (checkClose : Bool) (room : Nat) :
    listWithin (settings.asking checkClose) room = listWithin settings room := by
  induction room with
  | zero => simp only [listWithin, listOf_asking hf]
  | succ room ih => simp only [listWithin, ih, listOf_asking hf]

theorem expr_asking [CallStack] (hf : settings.flat = true) (checkClose : Bool) :
    expr (settings.asking checkClose) = expr settings := by
  simp only [expr, list, listWithin_asking hf]

end Reader

namespace Step

variable [CallStack] {settings : Settings} {step : Step}

/-- With flat sequences only a step that ends a list asks how. -/
theorem reader_asking (hf : settings.flat = true) (h : step ≠ .close) (checkClose : Bool) :
    step.reader (settings.asking checkClose) = step.reader settings := by
  have hexpr := Reader.expr_asking hf checkClose
  have hlist := Reader.listWithin_asking hf checkClose CallStack.room
  cases step with
  | program => simp only [reader, Reader.program, hexpr]
  | expr => simp only [reader, hexpr]
  | list => simp only [reader, Reader.list, hlist]
  | seq =>
    simp only [reader, hexpr]
    rfl
  | flatSeq => simp only [reader, hexpr]
  | close => exact absurd rfl h
  | atom | peek | advance | atEnd | atClose => rfl

/-- No step misses a `)` by settings that do not ask. -/
theorem lenient_reader (hc : settings.checkClose = false) :
    Reader.Lenient (step.reader settings) := by
  have list := Reader.lenient_listWithin hc CallStack.room
  have expr : Reader.Lenient (Reader.expr settings).read := Reader.lenient_exprOf list
  cases step with
  | program => exact (Reader.lenient_programFrom expr []).map _
  | expr => exact expr.map _
  | list => exact list.map _
  | seq => exact (Reader.lenient_seq expr).map _
  | flatSeq => exact (Reader.lenient_flatSeq expr).map _
  | atom => exact Reader.lenient_atom.map _
  | close => exact (Reader.lenient_close hc).map _
  | peek => exact Reader.lenient_peek.map _
  | advance => exact Reader.lenient_advance.map _
  | atEnd => exact Reader.lenient_get.map _
  | atClose => exact Reader.lenient_get.map _

theorem run_asking (hf : settings.flat = true) (h : step ≠ .close) (checkClose : Bool)
    (cursor : Cursor) : step.run (settings.asking checkClose) cursor = step.run settings cursor := by
  unfold run
  rw [reader_asking hf h]

/-- With flat sequences no step misses a `)`, but one that ends a list itself. -/
theorem run_ne_expectedClose (hf : settings.flat = true) (h : step ≠ .close) (cursor : Cursor) :
    (step.run settings cursor).1 ≠ .error (.grammar .expectedClose) := by
  -- by settings that do not ask the step is the same one
  rw [← run_asking hf h false]
  unfold run
  intro he
  split at he
  · cases he
  · next hr =>
    cases he
    exact lenient_reader rfl hr

/-- With flat sequences a list that is read ends at a `)`. -/
theorem endsAtClose_of_run (hf : settings.flat = true) {cursor : Cursor} {node : Node}
    (h : (Step.list.run settings cursor).1 = .ok (.node node)) : node.EndsAtClose := by
  -- by settings that ask the list is the same one
  rw [← run_asking hf (by decide) true] at h
  unfold run at h
  split at h
  · next hr =>
    obtain ⟨node', later, hl, hn⟩ := Reader.bind_eq_ok_iff.1 hr
    cases h
    cases hn
    obtain ⟨-, -, -, hends, -⟩ := Reader.takes_listWithin_closing rfl CallStack.room hl
    exact hends
  · cases h

end Step

namespace Program

section Bounded

variable [CallStack] {settings : Settings} {options options' : Options} {nodes : List Node}

/-- Flat programs are read as they are by settings that ask or do not ask how lists end. -/
theorem read_asking (hf : settings.flat = true) (checkClose : Bool)
    (ho : options.settings = .ok (settings.asking checkClose))
    (ho' : options'.settings = .ok settings) :
    read nodes options = read nodes options' := by
  have hprogram : Reader.program (settings.asking checkClose) = Reader.program settings := by
    unfold Reader.program
    rw [Reader.expr_asking hf]
  rw [read_of_settings ho, read_of_settings ho', hprogram]

/-- By settings that ask how lists end, none is added that ends at something else. -/
theorem listsClose_of_read (hc : settings.checkClose = true) (ho : options.settings = .ok settings)
    (hall : ∀ node ∈ nodes, node.ListsClose) {tree : Node} (h : read nodes options = .ok tree) :
    tree.ListsClose := by
  obtain ⟨settings', last, hs, hp⟩ := read_eq_ok_iff.1 h
  cases ho.symm.trans hs
  obtain ⟨taken, hr, -, hclose⟩ := Reader.closing_program hc hp
  change nodes = taken ++ last.rest at hr
  rw [hr] at hall
  exact hclose (List.forall_mem_append.1 hall).1

/-- Flat lists are read as if nobody asked how they end, for all of them end at a `)`.  The tree is the
same or the fault is, and so is what a step does from any cursor, unless it ends a list itself.  No
such step stops because a `)` is missing, a list that is read ends at one, and so do all lists of a
tree if those in the given nodes do. -/
theorem read_flat_asking {limit : Except SettingsFault Value}
    (ho : options.settings =
      limit.map fun maxDepth => { checkClose := true, flat := true, maxDepth })
    (ho' : options'.settings = limit.map fun maxDepth => { flat := true, maxDepth }) :
    (read nodes options = read nodes options' ∧
      ((∀ node ∈ nodes, node.ListsClose) →
        ∀ tree, read nodes options = .ok tree → tree.ListsClose)) ∧
    ∀ (maxDepth : Value) (step : Step) (i depth : Nat), step ≠ .close →
      let outcome (checkClose : Bool) :=
        step.run { checkClose, flat := true, maxDepth } (.ofIndex nodes i depth)
      outcome true = outcome false ∧
        (∀ checkClose fault, (outcome checkClose).1 = .error fault →
          fault.message ≠ "expected ')'") ∧
        (step = .list → ∀ checkClose node, (outcome checkClose).1 = .ok (.node node) →
          ∃ closer ∈ node.children.getLast?, closer.isLiteral ")" = true) := by
  constructor
  · cases limit with
    | error cause =>
      have hread : read nodes options = .error (.settings cause) := by
        rw [read, ho]
        rfl
      have hread' : read nodes options' = .error (.settings cause) := by
        rw [read, ho']
        rfl
      rw [hread, hread']
      refine ⟨rfl, fun _ tree h => ?_⟩
      cases h
    | ok maxDepth =>
      let settings : Settings := { flat := true, maxDepth }
      have hasking : options.settings = .ok (settings.asking true) := ho
      have hf : settings.flat = true := rfl
      refine ⟨read_asking hf true hasking ho', fun hall tree h => ?_⟩
      exact listsClose_of_read rfl hasking hall h
  · intro maxDepth step i depth h outcome
    let settings (checkClose : Bool) : Settings := { checkClose, flat := true, maxDepth }
    have hf (checkClose : Bool) : (settings checkClose).flat = true := rfl
    refine ⟨Step.run_asking (hf false) h true _, fun checkClose fault he hm => ?_,
      fun hl checkClose node hn => ?_⟩
    · rw [ReadFault.eq_expectedClose_of_message hm] at he
      exact Step.run_ne_expectedClose (hf checkClose) h _ he
    · subst hl
      exact Step.endsAtClose_of_run (hf checkClose) hn

end Bounded

/-- A list with an identifier that looks like a `)`, a tree in the place of a token, and an empty list
that is read once more on its own, where the limit admits it and where it does not. -/
theorem read_flat_asking_false_close :
    let options : Options := .loose (.object
      [("check_close", .bool true), ("flat_seq", .bool true), ("max_depth", .int 2)])
    let options' : Options := .loose (.object [("flat_seq", .bool true), ("max_depth", .int 2)])
    let looksClosed : Node := .leaf ⟨.identifier, ")"⟩
    let inner : Node := .tree .real [.leaf .openParen]
    let empty : Node := .tree .list [.leaf .openParen, .leaf .closeParen]
    let atom (node : Node) : Node := .tree .sexpr [.tree .atom [node]]
    let nodes : List Node := [.leaf .openParen, looksClosed, inner, .leaf .openParen,
      .leaf .closeParen, .leaf .closeParen]
    let tree : Node := .tree .program [.tree .sexpr [.tree .list [.leaf .openParen,
      .tree .seq [atom looksClosed, atom inner, .tree .sexpr [empty]], .leaf .closeParen]]]
    let outcome (checkClose : Bool) (depth : Nat) :=
      Step.list.run { checkClose, flat := true, maxDepth := .int 2 } (.ofIndex nodes 3 depth)
    (read nodes options' = .ok tree ∧ read nodes options = .ok tree ∧ tree.ListsClose) ∧
      (outcome true 1 = (.ok (.node empty), .ofIndex nodes 5 1) ∧ outcome true 1 = outcome false 1 ∧
        ∃ closer ∈ empty.children.getLast?, closer.isLiteral ")" = true) ∧
      (outcome true 2).1 = .error (.grammar .tooDeep) ∧
        (ReadFault.grammar .tooDeep).message ≠ "expected ')'" := by
  intro options options' looksClosed inner empty atom nodes tree outcome
  have ho : options.settings = (Except.ok (.int 2)).map fun maxDepth =>
    { checkClose := true, flat := true, maxDepth } := rfl
  have ho' : options'.settings = (Except.ok (.int 2)).map fun maxDepth =>
    { flat := true, maxDepth } := rfl
  have hnodes : ∀ node ∈ nodes, node.ListsClose := by
    simp [nodes, looksClosed, inner, Node.listsClose_tree, Node.ListsClose.leaf]
  have hread' : read nodes options' = .ok tree := eq_ok_of_toOption (by decide +kernel)
  have hlist : outcome true 1 = (.ok (.node empty), .ofIndex nodes 5 1) :=
    Prod.ext (eq_ok_of_toOption (by decide +kernel)) (by decide +kernel)
  have hdeep : (outcome true 2).1 = .error (.grammar .tooDeep) :=
    eq_error_of_grammarFault? (by decide +kernel)
  obtain ⟨⟨hread, hclose⟩, hstep⟩ := @read_flat_asking _ options options' nodes _ ho ho'
  obtain ⟨hsame, -, hends⟩ := hstep (.int 2) .list 3 1 (by decide)
  obtain ⟨-, hfault, -⟩ := hstep (.int 2) .list 3 2 (by decide)
  rw [← hread] at hread'
  exact ⟨⟨hread ▸ hread', hread', hclose hnodes tree hread'⟩,
    ⟨hlist, hsame, hends rfl true empty (congrArg Prod.fst hlist)⟩, hdeep, hfault true _ hdeep⟩

end Program

end SexprReader
