import SexprReader.Proofs.ChainRule
import SexprReader.Proofs.Nesting
import SexprReader.Proofs.Scannable

/-!
# What stricter settings change

Settings may ask two things of lists: that they nest no deeper than a limit, and that they end at a
`)`.  Stricter settings (`Settings.Stricter`) only reject.  Let a run by the strict settings and a run
by the lenient ones start at the same cursor.  If the lenient run gives a result that the strict
settings accept (`Settings.Accepts`), the strict run gives the same result; if they do not accept it,
the strict run stops with an objection (`Settings.Objects`).  If the lenient run stops, the strict one
stops with the same fault or with an objection (`Screened`).

Readers are compared by `Screens`, which also says what is asked of the parts of the result that are
read already.  It is closed under binds (`ScreensAt.bind`), a list is entered if the limit admits one
level more (`Screens.nested`), and the loops ask the same of one expression after the other.
-/

namespace SexprReader

namespace Node

/-- Every list in the node ends at a `)`. -/
inductive ListsClose : Node → Prop
  | leaf (token : Token) : ListsClose (.leaf token)
  | tree {category : Category} {children : List Node}
      (hc : category = .list → ∃ closer ∈ children.getLast?, closer.isLiteral ")" = true)
      (h : ∀ child ∈ children, ListsClose child) : ListsClose (.tree category children)

theorem listsClose_tree {category : Category} {children : List Node} :
    (tree category children).ListsClose ↔
      (category = .list → ∃ closer ∈ children.getLast?, closer.isLiteral ")" = true) ∧
        ∀ child ∈ children, child.ListsClose := by
  constructor
  · intro h
    cases h with
    | tree hc h => exact ⟨hc, h⟩
  · rintro ⟨hc, h⟩
    exact .tree hc h

end Node

namespace Settings

/-- The limit admits so many levels more inside of `depth` lists. -/
def Admits (settings : Settings) (depth levels : Nat) : Prop :=
  ∀ level, depth < level → level ≤ depth + levels → settings.exceeded level = .ok false

section Admits

variable {settings : Settings} {depth m n : Nat}

theorem admits_zero (settings : Settings) (depth : Nat) : settings.Admits depth 0 := by
  intro level hl hu
  omega

theorem Admits.mono (h : settings.Admits depth n) (hm : m ≤ n) : settings.Admits depth m :=
  fun level hl hu => h level hl (by omega)

theorem admits_max : settings.Admits depth (max m n) ↔
    settings.Admits depth m ∧ settings.Admits depth n := by
  constructor
  · intro h
    exact ⟨h.mono (Nat.le_max_left m n), h.mono (Nat.le_max_right m n)⟩
  · rintro ⟨hm, hn⟩
    rcases Nat.le_total m n with h | h
    · rwa [Nat.max_eq_right h]
    · rwa [Nat.max_eq_left h]

/-- One level more is the next level, and the other levels inside of it. -/
theorem admits_succ : settings.Admits depth (n + 1) ↔
    settings.exceeded (depth + 1) = .ok false ∧ settings.Admits (depth + 1) n := by
  constructor
  · intro h
    exact ⟨h (depth + 1) (by omega) (by omega), fun level hl hu => h level (by omega) (by omega)⟩
  · rintro ⟨hnext, h⟩ level hl hu
    by_cases he : level = depth + 1
    · rw [he, hnext]
    · exact h level (by omega) (by omega)

theorem admits_nestingAll {nodes : List Node} :
    settings.Admits depth (Node.nestingAll nodes) ↔
      ∀ node ∈ nodes, settings.Admits depth node.nesting := by
  induction nodes with
  | nil => simp [Node.nestingAll, admits_zero]
  | cons node rest ih => rw [Node.nestingAll, admits_max, ih, List.forall_mem_cons]

end Admits

/-! ### What settings ask of trees -/

/-- Inside of `depth` lists, the limit admits the lists of the node, and they end as the settings
ask. -/
def Accepts (settings : Settings) (depth : Nat) (node : Node) : Prop :=
  settings.Admits depth node.nesting ∧ (settings.checkClose = true → node.ListsClose)

/-- The settings accept what a list inside of `depth` lists, itself included, is made of: its end and
all its children. -/
def AcceptsInside (settings : Settings) (depth : Nat) (list : Node) : Prop :=
  (settings.checkClose = true →
    ∃ closer ∈ list.children.getLast?, closer.isLiteral ")" = true) ∧
  ∀ child ∈ list.children, settings.Accepts depth child

section Accepts

variable {settings : Settings} {depth : Nat}

theorem accepts_leaf (settings : Settings) (depth : Nat) (token : Token) :
    settings.Accepts depth (.leaf token) :=
  ⟨admits_zero settings depth, fun _ => .leaf token⟩

/-- Of a tree that is no list, the same is asked as of its children. -/
theorem accepts_tree {category : Category} (h : category ≠ .list) {children : List Node} :
    settings.Accepts depth (.tree category children) ↔
      ∀ child ∈ children, settings.Accepts depth child := by
  have hn : (Node.tree category children).nesting = Node.nestingAll children := by
    rw [Node.nesting, if_neg h, Nat.zero_add]
  rw [Accepts, hn, admits_nestingAll, Node.listsClose_tree]
  constructor
  · rintro ⟨ha, hc⟩ child hm
    exact ⟨ha child hm, fun hs => (hc hs).2 child hm⟩
  · intro hall
    exact ⟨fun child hm => (hall child hm).1,
      fun hs => ⟨fun he => absurd he h, fun child hm => (hall child hm).2 hs⟩⟩

/-- A list takes up one level, and the rest is asked of what it is made of. -/
theorem accepts_list {children : List Node} :
    settings.Accepts depth (.tree .list children) ↔
      settings.exceeded (depth + 1) = .ok false ∧
        settings.AcceptsInside (depth + 1) (.tree .list children) := by
  have hn : (Node.tree .list children).nesting = Node.nestingAll children + 1 := by
    rw [Node.nesting, if_pos rfl, Nat.add_comm]
  rw [Accepts, hn, admits_succ, admits_nestingAll, Node.listsClose_tree]
  constructor
  · rintro ⟨⟨he, ha⟩, hc⟩
    exact ⟨he, fun hs => (hc hs).1 rfl, fun child hm => ⟨ha child hm, fun hs => (hc hs).2 child hm⟩⟩
  · rintro ⟨he, hend, hall⟩
    exact ⟨⟨he, fun child hm => (hall child hm).1⟩,
      fun hs => ⟨fun _ => hend hs, fun child hm => (hall child hm).2 hs⟩⟩

/-- A list is an opening node, what it holds, and the node that ends it. -/
theorem acceptsInside_list {opener closer : Node} {held : List Node} :
    settings.AcceptsInside depth (.tree .list (opener :: held ++ [closer])) ↔
      (settings.Accepts depth closer ∧
          (settings.checkClose = true → closer.isLiteral ")" = true)) ∧
        (∀ node ∈ held, settings.Accepts depth node) ∧ settings.Accepts depth opener := by
  rw [AcceptsInside, Node.children, List.getLast?_concat, List.forall_mem_append,
    List.forall_mem_cons, List.forall_mem_singleton]
  simp only [Option.mem_some_iff, exists_eq_left']
  constructor
  · rintro ⟨hend, ⟨ho, hh⟩, hc⟩
    exact ⟨⟨hc, hend⟩, hh, ho⟩
  · rintro ⟨⟨hc, hend⟩, hh, ho⟩
    exact ⟨hend, ⟨ho, hh⟩, hc⟩

end Accepts

/-! ### Stricter settings -/

/-- The strict settings ask for all that the lenient ones ask for. -/
structure Stricter (strict lenient : Settings) : Prop where
  flat : strict.flat = lenient.flat
  checkClose : lenient.checkClose = true → strict.checkClose = true
  exceeded : ∀ depth, strict.exceeded depth = lenient.exceeded depth ∨
    lenient.exceeded depth = .ok false

theorem Stricter.refl (settings : Settings) : settings.Stricter settings :=
  ⟨rfl, id, fun _ => Or.inl rfl⟩

/-- The strict settings stop a reader with this fault where the lenient ones do not. -/
inductive Objects (strict lenient : Settings) : ReadFault → Prop
  | tooDeep {depth : Nat} (h : strict.exceeded depth = .ok true)
      (h' : lenient.exceeded depth = .ok false) : Objects strict lenient (.grammar .tooDeep)
  | incomparable {depth : Nat} {cause : SettingsFault} (h : strict.exceeded depth = .error cause)
      (h' : lenient.exceeded depth = .ok false) : Objects strict lenient (.settings cause)
  | expectedClose (h : strict.checkClose = true) (h' : lenient.checkClose = false) :
      Objects strict lenient (.grammar .expectedClose)

end Settings

namespace Reader

variable {α β : Type} {strict lenient : Settings}

/-! ### Two results -/

/-- How a result by the strict settings compares with the result by the lenient ones, where the strict
settings accept the results that are `fine`. -/
inductive Screened (strict lenient : Settings) (fine : α → Prop) :
    EStateM.Result ReadFault Cursor α → EStateM.Result ReadFault Cursor α → Prop
  | ok {a : α} {last : Cursor} (h : fine a) : Screened strict lenient fine (.ok a last) (.ok a last)
  | error (fault : ReadFault) (last : Cursor) :
      Screened strict lenient fine (.error fault last) (.error fault last)
  | rejected {fault : ReadFault} {last : Cursor} {result : EStateM.Result ReadFault Cursor α}
      (hf : strict.Objects lenient fault) (h : ∀ a later, result = .ok a later → ¬ fine a) :
      Screened strict lenient fine (.error fault last) result

section Screened

variable {fine : α → Prop} {screened : EStateM.Result ReadFault Cursor α} {a : α} {last : Cursor}
  {fault : ReadFault}

theorem Screened.fine_of_ok {free : EStateM.Result ReadFault Cursor α}
    (h : Screened strict lenient fine (.ok a last) free) : free = .ok a last ∧ fine a := by
  cases h with
  | ok h => exact ⟨rfl, h⟩

/-- A result of the lenient run is kept if it is fine, and else there is an objection. -/
theorem Screened.of_ok (h : Screened strict lenient fine screened (.ok a last)) :
    (fine a → screened = .ok a last) ∧
      (¬ fine a → ∃ fault later, strict.Objects lenient fault ∧ screened = .error fault later) := by
  cases h with
  | ok h => exact ⟨fun _ => rfl, fun hn => absurd h hn⟩
  | rejected hf h => exact ⟨fun hn => absurd hn (h a last rfl), fun _ => ⟨_, _, hf, rfl⟩⟩

/-- Where the lenient run stops, the strict one does. -/
theorem Screened.of_error (h : Screened strict lenient fine screened (.error fault last)) :
    screened = .error fault last ∨
      ∃ fault' later, strict.Objects lenient fault' ∧ screened = .error fault' later := by
  cases h with
  | error => exact Or.inl rfl
  | rejected hf h => exact Or.inr ⟨_, _, hf, rfl⟩

/-- A level that is given back is one that was admitted. -/
theorem Screened.leave {free : EStateM.Result ReadFault Cursor α} {q : Prop} (hq : q)
    (h : Screened strict lenient fine screened free) :
    Screened strict lenient (fun a => q ∧ fine a) (Reader.leave screened) (Reader.leave free) := by
  cases h with
  | ok h => exact .ok ⟨hq, h⟩
  | error fault last => exact .error fault _
  | rejected ho h =>
    refine .rejected ho fun a later he hx => ?_
    cases free with
    | ok b last =>
      cases he
      exact h _ _ rfl hx.2
    | error fault last => cases he

end Screened

/-! ### Two readers -/

/-- At the cursor the reader `screened` is `free` by stricter settings.  These accept a result if it is
`fine`, and they accept what is read already if `p` holds, which a fine result shows. -/
structure ScreensAt (strict lenient : Settings) (p : Prop) (fine : α → Prop)
    (screened free : Reader α) (cursor : Cursor) : Prop where
  screened : p → Screened strict lenient fine (screened cursor) (free cursor)
  keeps : ∀ ⦃a later⦄, free cursor = .ok a later →
    (fine a → p) ∧ later.depth = cursor.depth ∧ later.IsTokens

/-- Before tokens the reader `screened` is `free` by stricter settings, which ask for `p depth` and
`fine depth` inside of `depth` lists. -/
def Screens (strict lenient : Settings) (p : Nat → Prop) (fine : Nat → α → Prop)
    (screened free : Reader α) : Prop :=
  ∀ ⦃cursor⦄, cursor.IsTokens →
    ScreensAt strict lenient (p cursor.depth) (fine cursor.depth) screened free cursor

section Rules

variable {p : Prop} {fine : α → Prop} {cursor : Cursor}

theorem screensAt_of_eq_ok {screened free : Reader α} {a : α} {last : Cursor}
    (hs : screened cursor = .ok a last) (hf : free cursor = .ok a last) (hp : p ↔ fine a)
    (hd : last.depth = cursor.depth) (ht : last.IsTokens) :
    ScreensAt strict lenient p fine screened free cursor where
  screened h := by
    rw [hs, hf]
    exact .ok (hp.1 h)
  keeps b later he := by
    cases hf.symm.trans he
    exact ⟨hp.2, hd, ht⟩

theorem screensAt_of_eq_error {screened free : Reader α} {fault : ReadFault} {last : Cursor}
    (hs : screened cursor = .error fault last) (hf : free cursor = .error fault last) :
    ScreensAt strict lenient p fine screened free cursor where
  screened _ := by
    rw [hs, hf]
    exact .error fault last
  keeps b later he := by
    cases hf.symm.trans he

theorem ScreensAt.congr {screened screened' free free' : Reader α}
    (h : ScreensAt strict lenient p fine screened free cursor)
    (hs : screened' cursor = screened cursor) (hf : free' cursor = free cursor) :
    ScreensAt strict lenient p fine screened' free' cursor := by
  obtain ⟨screens, keeps⟩ := h
  rw [← hs, ← hf] at screens
  rw [← hf] at keeps
  exact ⟨screens, keeps⟩

/-- What is asked of other parts stays asked. -/
theorem ScreensAt.frame {screened free : Reader α}
    (h : ScreensAt strict lenient True fine screened free cursor) (q : Prop) :
    ScreensAt strict lenient q (fun a => fine a ∧ q) screened free cursor where
  screened hq := by
    have hscreen := h.screened trivial
    generalize screened cursor = result, free cursor = result' at hscreen
    cases hscreen with
    | ok h => exact .ok ⟨h, hq⟩
    | error fault last => exact .error fault last
    | rejected hf h => exact .rejected hf fun a later he hx => h a later he hx.1
  keeps a later he := ⟨fun hx => hx.2, (h.keeps he).2⟩

/-- Only what is asked of results matters. -/
theorem ScreensAt.restate {fine' : α → Prop} {screened free : Reader α}
    (h : ScreensAt strict lenient p fine screened free cursor)
    (hf : ∀ a later, free cursor = .ok a later → (fine a ↔ fine' a)) :
    ScreensAt strict lenient p fine' screened free cursor where
  screened hp := by
    have hscreen := h.screened hp
    generalize screened cursor = result, free cursor = result' at hscreen hf
    cases hscreen with
    | ok h => exact .ok ((hf _ _ rfl).1 h)
    | error fault last => exact .error fault last
    | rejected ho h => exact .rejected ho fun a later he hx => h a later he ((hf a later he).2 hx)
  keeps a later he := by
    obtain ⟨hp, hkeeps⟩ := h.keeps he
    exact ⟨fun hx => hp ((hf a later he).2 hx), hkeeps⟩

theorem ScreensAt.bind {fine' : β → Prop} {first first' : Reader α} {next next' : α → Reader β}
    (h : ScreensAt strict lenient p fine first first' cursor)
    (hnext : ∀ a later, first' cursor = .ok a later → later.depth = cursor.depth →
      later.IsTokens → ScreensAt strict lenient (fine a) fine' (next a) (next' a) later) :
    ScreensAt strict lenient p fine' (first >>= next) (first' >>= next') cursor where
  screened hp := by
    have hscreen := h.screened hp
    cases hf' : first' cursor with
    | ok a later =>
      obtain ⟨-, hd, ht⟩ := h.keeps hf'
      have ha := hnext a later hf' hd ht
      rw [hf'] at hscreen
      by_cases hfine : fine a
      · rw [bind_of_ok (hscreen.of_ok.1 hfine), bind_of_ok hf']
        exact ha.screened hfine
      · obtain ⟨fault, last, ho, hf⟩ := hscreen.of_ok.2 hfine
        rw [bind_of_error hf, bind_of_ok hf']
        exact .rejected ho fun b last hb hx => hfine ((ha.keeps hb).1 hx)
    | error fault later =>
      rw [bind_of_error hf']
      rw [hf'] at hscreen
      obtain hf | ⟨fault', last, ho, hf⟩ := hscreen.of_error
      · rw [bind_of_error hf]
        exact .error fault later
      · rw [bind_of_error hf]
        exact .rejected ho fun b last hb => by cases hb
  keeps b last hb := by
    obtain ⟨a, later, ha, hb⟩ := bind_eq_ok_iff.1 hb
    obtain ⟨hp, hd, ht⟩ := h.keeps ha
    obtain ⟨hfine, hd', ht'⟩ := (hnext a later ha hd ht).keeps hb
    exact ⟨fun hx => hp (hfine hx), hd'.trans hd, ht'⟩

section Depths

variable {p : Nat → Prop} {fine : Nat → α → Prop}

theorem screens_pure {a : α} (h : ∀ depth, p depth ↔ fine depth a) :
    Screens strict lenient p fine (pure a) (pure a) :=
  fun cursor ht => screensAt_of_eq_ok rfl rfl (h cursor.depth) rfl ht

theorem screens_fail (cause : GrammarFault) :
    Screens strict lenient p fine (fail cause) (fail cause) :=
  fun _ _ => screensAt_of_eq_error rfl rfl

theorem screens_of_objects {cause : GrammarFault} {a : α}
    (ho : strict.Objects lenient (.grammar cause)) (h : ∀ depth, ¬ fine depth a) :
    Screens strict lenient p fine (fail cause) (pure a) := by
  intro cursor ht
  constructor
  · intro _
    exact .rejected ho fun b later he => by
      cases he
      exact h cursor.depth
  · intro b later he
    cases he
    exact ⟨fun hx => absurd hx (h cursor.depth), rfl, ht⟩

/-- A reader that does the same by all settings. -/
theorem screens_self {reader : Reader α} {post : List Node → α → Prop} (ht : Takes reader post)
    (h : ∀ cursor a later, cursor.IsTokens → reader cursor = .ok a later →
      (p cursor.depth ↔ fine cursor.depth a)) : Screens strict lenient p fine reader reader := by
  intro cursor htokens
  cases hr : reader cursor with
  | ok a later =>
    obtain ⟨-, -, hd, -⟩ := ht hr
    exact screensAt_of_eq_ok hr hr (h cursor a later htokens hr) hd (htokens.of_takes ht hr)
  | error fault later => exact screensAt_of_eq_error hr hr

theorem Screens.frame {screened free : Reader α}
    (h : Screens strict lenient (fun _ => True) fine screened free) (q : Nat → Prop) :
    Screens strict lenient q (fun depth a => fine depth a ∧ q depth) screened free :=
  fun cursor ht => (h ht).frame (q cursor.depth)

theorem Screens.bind {fine' : Nat → β → Prop} {first first' : Reader α}
    {next next' : α → Reader β} (h : Screens strict lenient p fine first first')
    (hnext : ∀ a, Screens strict lenient (fun depth => fine depth a) fine' (next a) (next' a)) :
    Screens strict lenient p fine' (first >>= next) (first' >>= next') :=
  fun _ ht => (h ht).bind fun a _ _ hd ht' => hd ▸ hnext a ht'

/-- One list more is entered if the limit admits the next level. -/
theorem Screens.nested (hs : strict.Stricter lenient) {inner inner' : Reader α}
    (h : Screens strict lenient (fun _ => True) fine inner inner') :
    Screens strict lenient (fun _ => True)
      (fun depth a => strict.exceeded (depth + 1) = .ok false ∧ fine (depth + 1) a)
      (Reader.nested strict inner) (Reader.nested lenient inner') := by
  rintro ⟨rest, depth⟩ ht
  have hinner : ScreensAt strict lenient True (fine (depth + 1)) inner inner' ⟨rest, depth + 1⟩ :=
    @h ⟨rest, depth + 1⟩ fun node hn => ht node hn
  constructor
  · intro _
    cases hd : strict.exceeded (depth + 1) with
    | error cause =>
      rw [nested_of_error hd]
      rcases hs.exceeded (depth + 1) with he | he
      · rw [nested_of_error (he.symm.trans hd)]
        exact .error _ _
      · exact .rejected (.incomparable hd he) fun a later _ hx => nomatch hd.symm.trans hx.1
    | ok refused =>
      cases refused with
      | true =>
        rw [nested_of_exceeded hd]
        rcases hs.exceeded (depth + 1) with he | he
        · rw [nested_of_exceeded (he.symm.trans hd)]
          exact .error _ _
        · exact .rejected (.tooDeep hd he) fun a later _ hx => nomatch hd.symm.trans hx.1
      | false =>
        have hd' : lenient.exceeded (depth + 1) = .ok false := by
          rcases hs.exceeded (depth + 1) with he | he
          · rw [← he, hd]
          · exact he
        rw [nested_of_admitted hd inner rest, nested_of_admitted hd' inner' rest]
        exact (hinner.screened trivial).leave hd
  · intro a later he
    obtain ⟨-, last, hi, rfl⟩ := nested_eq_ok he
    obtain ⟨-, hd, htokens⟩ := hinner.keeps hi
    exact ⟨fun _ => trivial, by rw [hd]; rfl, fun node hn => htokens node hn⟩

end Depths

end Rules

/-! ### Single nodes -/

theorem screens_peek {p : Nat → Prop} :
    Screens strict lenient p (fun depth _ => p depth) peek peek :=
  screens_self takes_peek fun _ _ _ _ _ => Iff.rfl

theorem screens_advance :
    Screens strict lenient (fun _ => True) strict.Accepts advance advance := by
  refine screens_self takes_advance fun cursor node later ht he => ?_
  obtain ⟨_ | ⟨next, rest⟩, depth⟩ := cursor
  · cases he
  · obtain ⟨token, rfl⟩ := ht next List.mem_cons_self
    cases he
    exact iff_of_true trivial (Settings.accepts_leaf strict depth token)

/-- The node that ends a list is looked at if the settings ask for it. -/
theorem screens_close (hs : strict.Stricter lenient) :
    Screens strict lenient (fun _ => True)
      (fun depth closer => strict.Accepts depth closer ∧
        (strict.checkClose = true → closer.isLiteral ")" = true)) (close strict) (close lenient) := by
  refine screens_advance.bind fun node => ?_
  by_cases hend : strict.checkClose = true → node.isLiteral ")" = true
  · have hend' : lenient.checkClose = true → node.isLiteral ")" = true :=
      fun h => hend (hs.checkClose h)
    rw [if_neg (by simpa using hend), if_neg (by simpa using hend')]
    exact screens_pure fun depth => (and_iff_left hend).symm
  · rw [if_pos (by simpa using hend)]
    split
    · exact screens_fail _
    · next hl =>
      rw [Classical.not_imp] at hend
      have hc : lenient.checkClose = false := by simpa [hend.2] using hl
      exact screens_of_objects (.expectedClose hend.1 hc) fun depth hx => hend.2 (hx.2 hend.1)

theorem screens_atom :
    Screens strict lenient (fun _ => True) strict.Accepts atom atom := by
  refine screens_self lossless_atom fun cursor node later ht he => ?_
  obtain ⟨next, hr, -, hn⟩ := atom_eq_ok he
  obtain ⟨token, rfl⟩ := ht next (hr ▸ List.mem_cons_self)
  refine iff_of_true trivial ?_
  rcases hn with ⟨-, rfl⟩ | ⟨-, rfl⟩
  · rw [Settings.accepts_tree (by decide), List.forall_mem_singleton]
    exact Settings.accepts_leaf strict _ token
  · exact Settings.accepts_leaf strict _ token

theorem screens_expectOpen {p : Nat → Prop} :
    Screens strict lenient p (fun depth _ => p depth) expectOpen expectOpen :=
  screens_self takes_expectOpen fun _ _ _ _ _ => Iff.rfl

/-! ### Sequences -/

end Reader

namespace Pending

/-- The nodes that a waiting sequence has so far. -/
def nodes : Pending → List Node
  | awaitsNested head => [head]
  | awaitsExtra head nested => [head, nested]

/-- What holds of all nodes that waiting sequences have so far. -/
def All (good : Node → Prop) (outer : List Pending) : Prop :=
  ∀ pending ∈ outer, ∀ node ∈ pending.nodes, good node

variable {good : Node → Prop} {head nested : Node} {outer : List Pending}

theorem all_nil (good : Node → Prop) : All good [] := fun _ h => nomatch h

theorem all_awaitsNested_cons :
    All good (.awaitsNested head :: outer) ↔ good head ∧ All good outer := by
  rw [All, List.forall_mem_cons, nodes, List.forall_mem_singleton]
  rfl

theorem all_awaitsExtra_cons :
    All good (.awaitsExtra head nested :: outer) ↔
      good head ∧ good nested ∧ All good outer := by
  rw [All, List.forall_mem_cons, nodes, List.forall_mem_cons, List.forall_mem_singleton, and_assoc]
  rfl

end Pending

namespace Reader

section Sequences

variable {strict lenient : Settings} {item item' : Item} {good : Node → Prop}

/-- Handing a finished sequence to the waiting ones asks for nothing new. -/
theorem all_finish (hg : ∀ nodes, good (.tree .seq nodes) ↔ ∀ node ∈ nodes, good node)
    (atOpen : Bool) (done : Node) (outer : List Pending) :
    (finish atOpen done outer).elim good (Pending.All good) ↔ good done ∧ Pending.All good outer := by
  induction outer generalizing done with
  | nil => exact (and_iff_left (Pending.all_nil good)).symm
  | cons pending outer ih =>
    cases pending with
    | awaitsNested head =>
      rw [finish, Pending.all_awaitsNested_cons]
      split
      · rw [Sum.elim_inr, Pending.all_awaitsExtra_cons, and_left_comm]
      · rw [ih, hg, List.forall_mem_cons, List.forall_mem_singleton, and_assoc, and_left_comm]
    | awaitsExtra head nested =>
      rw [finish, ih, hg, Pending.all_awaitsExtra_cons, List.forall_mem_cons, List.forall_mem_cons,
        List.forall_mem_singleton]
      simp only [and_assoc, and_left_comm]

theorem all_settle (hg : ∀ nodes, good (.tree .seq nodes) ↔ ∀ node ∈ nodes, good node)
    (next head : Node) (outer : List Pending) :
    (settle next head outer).elim good (Pending.All good) ↔ good head ∧ Pending.All good outer := by
  rw [settle]
  split
  · rw [all_finish hg, hg, List.forall_mem_singleton]
  · exact Pending.all_awaitsNested_cons

/-- A reader of a node by the strict settings, and the same by the lenient ones. -/
def ScreensItem (strict lenient : Settings) (reader reader' : Reader Node) : Prop :=
  Screens strict lenient (fun _ => True) strict.Accepts reader reader'

/-- Settings accept what is read by them. -/
theorem ScreensItem.accepts {settings : Settings} {reader : Reader Node}
    (h : ScreensItem settings settings reader reader) {cursor later : Cursor}
    (ht : cursor.IsTokens) {node : Node} (hr : reader cursor = .ok node later) :
    settings.Accepts cursor.depth node := by
  have hscreen := (h ht).screened trivial
  rw [hr] at hscreen
  exact hscreen.fine_of_ok.2

theorem screensAt_chainFrom (hi : ScreensItem strict lenient item.read item'.read) (head : Node)
    (outer : List Pending) {cursor : Cursor} (ht : cursor.IsTokens) :
    ScreensAt strict lenient
      (strict.Accepts cursor.depth head ∧ Pending.All (strict.Accepts cursor.depth) outer)
      (strict.Accepts cursor.depth) (chainFrom item head outer) (chainFrom item' head outer)
      cursor := by
  induction hn : cursor.rest.length using Nat.strongRecOn generalizing head outer cursor with
  | ind n ih =>
    rcases hr : cursor.rest with _ | ⟨next, rest⟩
    · exact screensAt_of_eq_error (chainFrom_of_nil item head outer hr)
        (chainFrom_of_nil item' head outer hr)
    rw [← all_settle (fun _ => Settings.accepts_tree (by decide)) next head outer]
    cases hs : settle next head outer with
    | inl done =>
      exact screensAt_of_eq_ok (chainFrom_of_inl item hr hs) (chainFrom_of_inl item' hr hs)
        Iff.rfl rfl ht
    | inr outer' =>
      refine ScreensAt.congr (((hi ht).frame _).bind fun head' later hr' hd ht' => ?_)
        (chainFrom_of_inr item hr hs) (chainFrom_of_inr item' hr hs)
      rw [← hd]
      exact ih _ (hn ▸ item'.consumes hr') head' outer' ht' rfl

theorem screens_chainSeq (hi : ScreensItem strict lenient item.read item'.read) :
    ScreensItem strict lenient (chainSeq item) (chainSeq item') := by
  intro cursor ht
  refine (hi ht).bind fun head later _ hd ht' => ?_
  rw [← hd]
  have hchain := screensAt_chainFrom hi head [] ht'
  rwa [and_iff_left (Pending.all_nil _)] at hchain

theorem screensAt_flatFrom (hi : ScreensItem strict lenient item.read item'.read)
    (found : List Node) {cursor : Cursor} (ht : cursor.IsTokens) :
    ScreensAt strict lenient (∀ node ∈ found, strict.Accepts cursor.depth node)
      (strict.Accepts cursor.depth) (flatFrom item found) (flatFrom item' found) cursor := by
  induction hn : cursor.rest.length using Nat.strongRecOn generalizing found cursor with
  | ind n ih =>
    cases hc : cursor.atClose with
    | true =>
      refine screensAt_of_eq_ok (flatFrom_of_atClose item found hc)
        (flatFrom_of_atClose item' found hc) ?_ rfl ht
      simp [Settings.accepts_tree]
    | false =>
      refine ScreensAt.congr (((hi ht).frame _).bind fun node later hr' hd ht' => ?_)
        (flatFrom_of_not_atClose item found hc) (flatFrom_of_not_atClose item' found hc)
      rw [← List.forall_mem_cons, ← hd]
      exact ih _ (hn ▸ item'.consumes hr') (node :: found) ht' rfl

theorem screens_flatSeq (hi : ScreensItem strict lenient item.read item'.read) :
    ScreensItem strict lenient (flatSeq item) (flatSeq item') := by
  intro cursor ht
  refine (hi ht).bind fun head later _ hd ht' => ?_
  rw [← hd]
  simpa using screensAt_flatFrom hi [head] ht'

theorem screens_seq (hs : strict.Stricter lenient)
    (hi : ScreensItem strict lenient item.read item'.read) :
    ScreensItem strict lenient (seq strict item) (seq lenient item') := by
  unfold seq
  rw [hs.flat]
  split
  · exact screens_flatSeq hi
  · exact screens_chainSeq hi

end Sequences

/-! ### Lists and programs -/

section Lists

variable {strict lenient : Settings} {item item' : Item}

theorem screens_body (hs : strict.Stricter lenient)
    (hi : ScreensItem strict lenient item.read item'.read) :
    Screens strict lenient (fun _ => True)
      (fun depth held => ∀ node ∈ held, strict.Accepts depth node) (body strict item)
      (body lenient item') := by
  have hget : Screens strict lenient (fun _ => True) (fun _ _ => True) (get : Reader Cursor) get :=
    screens_self takes_get fun _ _ _ _ _ => Iff.rfl
  refine hget.bind fun cursor => ?_
  rw [hs.flat]
  split
  · exact screens_pure fun depth => by simp
  · exact (screens_seq hs hi).bind fun node => screens_pure fun depth => by simp

theorem exists_children_of_listOf {settings : Settings} {cursor later : Cursor} {node : Node}
    (h : listOf settings item cursor = .ok node later) : ∃ children, node = .tree .list children := by
  obtain ⟨-, middle, -, h⟩ := bind_eq_ok_iff.1 h
  obtain ⟨-, last, h, -⟩ := nested_eq_ok h
  obtain ⟨opener, _, -, h⟩ := bind_eq_ok_iff.1 h
  obtain ⟨held, _, -, h⟩ := bind_eq_ok_iff.1 h
  obtain ⟨closer, _, -, h⟩ := bind_eq_ok_iff.1 h
  cases h
  exact ⟨_, rfl⟩

theorem screens_listOf (hs : strict.Stricter lenient)
    (hi : ScreensItem strict lenient item.read item'.read) :
    ScreensItem strict lenient (listOf strict item) (listOf lenient item') := by
  have hlist : Screens strict lenient (fun _ => True)
      (fun depth node => strict.exceeded (depth + 1) = .ok false ∧
        strict.AcceptsInside (depth + 1) node) (listOf strict item) (listOf lenient item') := by
    refine screens_expectOpen.bind fun _ => Screens.nested hs (screens_advance.bind fun opener => ?_)
    refine ((screens_body hs hi).frame _).bind fun held => ?_
    refine ((screens_close hs).frame _).bind fun closer => screens_pure fun depth => ?_
    exact Settings.acceptsInside_list.symm
  intro cursor ht
  refine (hlist ht).restate fun node later he => ?_
  obtain ⟨children, rfl⟩ := exists_children_of_listOf he
  exact Settings.accepts_list.symm

theorem screens_exprOf {list list' : Reader Node} (hl : ScreensItem strict lenient list list') :
    ScreensItem strict lenient (exprOf list) (exprOf list') := by
  have wrap : ∀ {reader reader' : Reader Node}, ScreensItem strict lenient reader reader' →
      ScreensItem strict lenient (reader >>= fun child => pure (.tree .sexpr [child]))
        (reader' >>= fun child => pure (.tree .sexpr [child])) := fun h =>
    h.bind fun child => screens_pure fun depth => by simp [Settings.accepts_tree]
  refine screens_peek.bind fun node => ?_
  split
  · exact wrap hl
  · exact wrap screens_atom

section Bounded

variable [CallStack]

theorem screens_starved : ScreensItem strict lenient starved starved :=
  fun cursor _ => screensAt_of_eq_error (starved_eq cursor) (starved_eq cursor)

theorem screens_listWithin (hs : strict.Stricter lenient) : ∀ room,
    ScreensItem strict lenient (listWithin strict room).read (listWithin lenient room).read
  | 0 => screens_listOf hs screens_starved
  | room + 1 => screens_listOf hs (screens_exprOf (screens_listWithin hs room))

theorem screens_expr (hs : strict.Stricter lenient) :
    ScreensItem strict lenient (expr strict).read (expr lenient).read :=
  screens_exprOf (screens_listWithin hs CallStack.room)

end Bounded

theorem screensAt_programFrom (hi : ScreensItem strict lenient item.read item'.read)
    (found : List Node) {cursor : Cursor} (ht : cursor.IsTokens) :
    ScreensAt strict lenient (∀ node ∈ found, strict.Accepts cursor.depth node)
      (strict.Accepts cursor.depth) (programFrom item found) (programFrom item' found) cursor := by
  induction hn : cursor.rest.length using Nat.strongRecOn generalizing found cursor with
  | ind n ih =>
    rcases hr : cursor.rest with _ | ⟨next, rest⟩
    · refine screensAt_of_eq_ok (programFrom_of_nil item found hr) (programFrom_of_nil item' found hr)
        ?_ rfl ht
      simp [Settings.accepts_tree]
    · refine ScreensAt.congr (((hi ht).frame _).bind fun node later hr' hd ht' => ?_)
        (programFrom_of_cons item found hr) (programFrom_of_cons item' found hr)
      rw [← List.forall_mem_cons, ← hd]
      exact ih _ (hn ▸ item'.consumes hr') (node :: found) ht' rfl

theorem screens_program [CallStack] (hs : strict.Stricter lenient) :
    ScreensItem strict lenient (program strict) (program lenient) := by
  intro cursor ht
  have hprogram := screensAt_programFrom (screens_expr hs) [] ht
  simp only [List.not_mem_nil, false_implies, implies_true] at hprogram
  exact hprogram

end Lists

end Reader

namespace Program

variable [CallStack]

/-- Settings accept the trees that are read by them. -/
theorem accepts_of_read {settings : Settings} {options : Options}
    (ho : options.settings = .ok settings) {tokens : List Token} {tree : Node}
    (h : read (tokens.map .leaf) options = .ok tree) : settings.Accepts 0 tree := by
  obtain ⟨settings', last, hs, hp⟩ := read_eq_ok_iff.1 h
  cases ho.symm.trans hs
  exact (Reader.screens_program (.refl settings)).accepts (Cursor.isTokens_map_leaf tokens 0) hp

/-- By stricter settings tokens are read to the same tree if the settings accept it, and else an
objection stops the reading; a fault stays, or an objection comes before it. -/
theorem screened_read {strict lenient : Settings} (hs : strict.Stricter lenient)
    {options options' : Options} (ho : options.settings = .ok strict)
    (ho' : options'.settings = .ok lenient) (tokens : List Token) :
    (∀ tree, read (tokens.map .leaf) options' = .ok tree →
      (strict.Accepts 0 tree → read (tokens.map .leaf) options = .ok tree) ∧
        (¬ strict.Accepts 0 tree → ∃ fault, strict.Objects lenient fault ∧
          read (tokens.map .leaf) options = .error fault)) ∧
    (∀ fault, read (tokens.map .leaf) options' = .error fault →
      read (tokens.map .leaf) options = .error fault ∨
        ∃ fault', strict.Objects lenient fault' ∧
          read (tokens.map .leaf) options = .error fault') := by
  have hscreen := (Reader.screens_program hs (Cursor.isTokens_map_leaf tokens 0)).screened trivial
  rw [read_of_settings ho, read_of_settings ho']
  cases hp : Reader.program lenient ⟨tokens.map .leaf, 0⟩ with
  | ok tree last =>
    rw [hp] at hscreen
    obtain ⟨hok, herror⟩ := hscreen.of_ok
    refine ⟨fun tree' ht => ?_, nofun⟩
    cases ht
    refine ⟨fun ha => by rw [hok ha], fun hn => ?_⟩
    obtain ⟨fault, later, hf, he⟩ := herror hn
    exact ⟨fault, hf, by rw [he]⟩
  | error fault last =>
    rw [hp] at hscreen
    refine ⟨nofun, fun fault' he => ?_⟩
    cases he
    obtain he | ⟨fault', later, hf, he⟩ := hscreen.of_error
    · exact Or.inl (by rw [he])
    · exact Or.inr ⟨fault', hf, by rw [he]⟩

end Program

end SexprReader
