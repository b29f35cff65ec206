import SexprReader.Proofs.Lossless
import SexprReader.Proofs.Outlines
import SexprReader.Proofs.Scannable
import SexprReader.Proofs.Segmentation

/-!
# Listings can be read back

An outline and a table have one line for each entry, but the text of a string may hold line feeds, so
their lines are not the lines of the text.  They can be told apart nevertheless.  A line begins with
spaces and the name of a category, and what is filled up behind the name depends on these alone; then
comes the text, and where that ends can be seen (`Token.Legible.append_inj`): a string ends at the first
quote that no backslash precedes, and no other text of a token holds a line feed.

So a line is known from any text that begins with it (`Readable`), the lines of a listing from the whole
(`Readable.eq_of_intercalate_eq`), and a node from the entries that they show (`Node.entries_inj`).
-/

namespace SexprReader

open Token (Stops)

/-- Nothing but a line feed comes next. -/
abbrev EndsLine (cs : List Char) : Prop := Stops (· != '\n') cs

/-- What goes as far as characters of a kind do is known from what begins with it. -/
theorem append_inj_of_stops {kind : Char → Bool} {run run' cs cs' : List Char}
    (hr : ∀ c ∈ run, kind c = true) (hr' : ∀ c ∈ run', kind c = true) (hs : Stops kind cs)
    (hs' : Stops kind cs') (he : run ++ cs = run' ++ cs') : run = run' ∧ cs = cs' := by
  have hrun := congrArg (List.takeWhile kind) he
  rw [Token.takeWhile_append_of_stops hr hs, Token.takeWhile_append_of_stops hr' hs'] at hrun
  subst hrun
  exact ⟨rfl, List.append_cancel_left he⟩

/-! ### Lines of a listing -/

/-- The line of what satisfies `p` is known from every text that begins with it and goes on with a line
feed, if it goes on.  No line is empty. -/
structure Readable {α : Type} (p : α → Prop) (line : α → List Char) : Prop where
  ne_nil : ∀ a, line a ≠ []
  append_inj : ∀ ⦃a b cs cs'⦄, p a → p b → EndsLine cs → EndsLine cs' →
    line a ++ cs = line b ++ cs' → a = b ∧ cs = cs'

section Readable

variable {α : Type} {p : α → Prop} {line : α → List Char}

/-- The lines behind the first one, each with a line feed in front. -/
def laterLines (line : α → List Char) (entries : List α) : List Char :=
  entries.flatMap fun entry => '\n' :: line entry

theorem intercalate_map_cons (line : α → List Char) (entry : α) (entries : List α) :
    ['\n'].intercalate ((entry :: entries).map line) = line entry ++ laterLines line entries := by
  induction entries generalizing entry with
  | nil => simp [laterLines]
  | cons next entries ih =>
    rw [List.map_cons, List.map_cons, List.intercalate_cons_cons, ← List.map_cons, ih]
    simp [laterLines]

theorem endsLine_laterLines (line : α → List Char) (entries : List α) :
    EndsLine (laterLines line entries) := by
  cases entries with
  | nil => exact fun c hc => nomatch hc
  | cons entry entries =>
    intro c hc
    cases hc
    rfl

theorem Readable.laterLines_inj (h : Readable p line) {as bs : List α} (ha : ∀ a ∈ as, p a)
    (hb : ∀ b ∈ bs, p b) (he : laterLines line as = laterLines line bs) : as = bs := by
  induction as generalizing bs with
  | nil =>
    cases bs with
    | nil => rfl
    | cons b bs => cases he
  | cons a as ih =>
    cases bs with
    | nil => cases he
    | cons b bs =>
      obtain ⟨ha, has⟩ := List.forall_mem_cons.1 ha
      obtain ⟨hb, hbs⟩ := List.forall_mem_cons.1 hb
      obtain ⟨rfl, hlater⟩ := h.append_inj ha hb (endsLine_laterLines line as)
        (endsLine_laterLines line bs) (List.cons.inj he).2
      rw [ih has hbs hlater]

/-- A listing is known from its text. -/
theorem Readable.eq_of_intercalate_eq (h : Readable p line) {as bs : List α} (ha : ∀ a ∈ as, p a)
    (hb : ∀ b ∈ bs, p b)
    (he : ['\n'].intercalate (as.map line) = ['\n'].intercalate (bs.map line)) : as = bs := by
  have hne : ∀ a as, ['\n'].intercalate ((a :: as).map line) ≠ [] := by
    intro a as hn
    rw [intercalate_map_cons] at hn
    exact h.ne_nil a (List.append_eq_nil_iff.1 hn).1
  cases as with
  | nil =>
    cases bs with
    | nil => rfl
    | cons b bs => exact absurd he.symm (hne b bs)
  | cons a as =>
    cases bs with
    | nil => exact absurd he (hne a as)
    | cons b bs =>
      rw [intercalate_map_cons, intercalate_map_cons] at he
      obtain ⟨ha, has⟩ := List.forall_mem_cons.1 ha
      obtain ⟨hb, hbs⟩ := List.forall_mem_cons.1 hb
      obtain ⟨rfl, hlater⟩ := h.append_inj ha hb (endsLine_laterLines line as)
        (endsLine_laterLines line bs) he
      rw [h.laterLines_inj has hbs hlater]

end Readable

/-! ### Texts of tokens -/

namespace Token

/-- The end of the text can be seen: it is a string, or it holds no line feed. -/
def Legible (category : Category) (text : List Char) : Prop :=
  if category = .string then IsString text else ∀ c ∈ text, c ≠ '\n'

theorem ne_lineFeed_of_isPlain {c : Char} (h : isPlain c = true) : c ≠ '\n' := by
  rintro rfl
  exact absurd h (by decide)

theorem Fits.legible {category : Category} {lexeme next : List Char}
    (h : Fits category lexeme next) : Legible category lexeme := by
  cases h with
  | real h => exact fun c hc => ne_lineFeed_of_isPlain (h.isPlain c hc)
  | integer h => exact fun c hc => ne_lineFeed_of_isPlain (h.isPlain c hc)
  | string h => exact h
  | identifier h => exact fun c hc => ne_lineFeed_of_isPlain (h.2.1 c hc)
  | literal h =>
    intro c hc
    rcases h with rfl | rfl
    · rw [List.mem_singleton.1 hc]
      decide
    · rw [List.mem_singleton.1 hc]
      decide

/-- A string that nothing but a line feed follows is not empty. -/
theorem append_ne_of_isString {lexeme cs cs' : List Char} (h : IsString lexeme)
    (hs : EndsLine cs') : lexeme ++ cs ≠ cs' := by
  obtain ⟨inner, rfl, -⟩ := h
  rintro rfl
  exact absurd (hs '"' rfl) (by decide)

/-- A text of a token, or none, is known from what begins with it, if the line ends there. -/
theorem Legible.append_inj {category : Category} {text text' cs cs' : List Char}
    (h : text = [] ∨ Legible category text) (h' : text' = [] ∨ Legible category text')
    (hs : EndsLine cs) (hs' : EndsLine cs') (he : text ++ cs = text' ++ cs') :
    text = text' ∧ cs = cs' := by
  by_cases hc : category = .string
  · rw [Legible, if_pos hc] at h h'
    rcases h with rfl | h
    · rcases h' with rfl | h'
      · exact ⟨rfl, he⟩
      · exact absurd he.symm (append_ne_of_isString h' hs)
    · rcases h' with rfl | h'
      · exact absurd he (append_ne_of_isString h hs')
      · -- both are what the rule for strings takes from the same text
        have hrule : string? (text ++ cs) = some (text, cs) := string?_eq_some_iff.2 ⟨rfl, h⟩
        rw [he, string?_eq_some_iff.2 ⟨rfl, h'⟩] at hrule
        cases hrule
        exact ⟨rfl, rfl⟩
  · have hline : ∀ {text : List Char}, text = [] ∨ Legible category text →
        ∀ c ∈ text, (c != '\n') = true := by
      intro text h c hm
      rw [Legible, if_neg hc] at h
      rcases h with rfl | h
      · cases hm
      · exact bne_iff_ne.2 (h c hm)
    exact append_inj_of_stops (hline h) (hline h') hs hs' he

end Token

/-! ### Names of categories -/

namespace Category

theorem isAlpha_of_mem_name (category : Category) :
    ∀ c ∈ category.name.toList, c.isAlpha = true := by
  have h : category.name.toList.all Char.isAlpha = true := by cases category <;> decide
  exact List.all_eq_true.1 h

/-- A name is known from what goes on with no letter. -/
theorem name_append_inj {a b : Category} {cs cs' : List Char} (hs : Stops Char.isAlpha cs)
    (hs' : Stops Char.isAlpha cs') (he : a.name.toList ++ cs = b.name.toList ++ cs') :
    a = b ∧ cs = cs' := by
  obtain ⟨hname, hcs⟩ :=
    append_inj_of_stops a.isAlpha_of_mem_name b.isAlpha_of_mem_name hs hs' he
  exact ⟨name_injective (String.toList_injective hname), hcs⟩

end Category

/-- Behind a name there are spaces, and then something else that is no letter. -/
theorem stops_isAlpha_fill (n : Nat) {c : Char} (hc : c.isAlpha = false) (cs : List Char) :
    Stops Char.isAlpha (List.replicate n ' ' ++ c :: cs) := by
  intro d hd
  cases n with
  | zero =>
    cases hd
    exact hc
  | succ n =>
    cases hd
    rfl

/-- A line shows a category and a text by the name, as many spaces as this one takes, a separator,
and the text.  Both are known from what begins with that. -/
theorem label_append_inj (width : Category → Nat) {c : Char} (hc : c.isAlpha = false)
    (separator : List Char) {category category' : Category} {text text' cs cs' : List Char}
    (h : text = [] ∨ Token.Legible category text) (h' : text' = [] ∨ Token.Legible category' text')
    (hs : EndsLine cs) (hs' : EndsLine cs')
    (he : category.name.toList ++
        (List.replicate (width category) ' ' ++ c :: (separator ++ (text ++ cs))) =
      category'.name.toList ++
        (List.replicate (width category') ' ' ++ c :: (separator ++ (text' ++ cs')))) :
    category = category' ∧ text = text' ∧ cs = cs' := by
  obtain ⟨rfl, hfill⟩ :=
    Category.name_append_inj (stops_isAlpha_fill _ hc _) (stops_isAlpha_fill _ hc _) he
  have htail := (List.cons.inj (List.append_cancel_left hfill)).2
  exact ⟨rfl, Token.Legible.append_inj h h' hs hs' (List.append_cancel_left htail)⟩

/-! ### Outlines and tables -/

namespace Node

namespace Entry

/-- The text of the entry has an end that can be seen, or it is empty. -/
def IsLegible (entry : Entry) : Prop :=
  entry.text.toList = [] ∨ Token.Legible entry.category entry.text.toList

/-- The number of spaces behind the name in the line of an entry. -/
def fill (indent : String) (depth : Nat) (category : Category) : Nat :=
  40 - (indentAt indent depth ++ category.name).length

theorem toList_line (indent : String) (entry : Entry) :
    (entry.line indent).toList =
      indent.toList ++ (List.replicate (2 * entry.depth) ' ' ++ (entry.category.name.toList ++
        (List.replicate (fill indent entry.depth entry.category) ' ' ++
          ' ' :: entry.text.toList))) := by
  simp [line, padRight, fill, indentAt]

theorem stops_space_name (category : Category) (cs : List Char) :
    Stops (· == ' ') (category.name.toList ++ cs) := by
  intro c hc
  cases category <;> cases hc <;> rfl

/-- The line of an entry is known from what begins with it. -/
theorem readable_line (indent : String) :
    Readable IsLegible fun entry => (line indent entry).toList where
  ne_nil entry := by
    rw [toList_line]
    simp
  append_inj a b cs cs' ha hb hs hs' he := by
    simp only [toList_line, List.append_assoc, List.append_cancel_left_eq, List.cons_append] at he
    obtain ⟨hspaces, hname⟩ := append_inj_of_stops (by simp) (by simp) (stops_space_name _ _)
      (stops_space_name _ _) he
    have hdepth : a.depth = b.depth := by
      have hlength := congrArg List.length hspaces
      simp only [List.length_replicate] at hlength
      omega
    obtain ⟨depth, category, text⟩ := a
    cases hdepth
    obtain ⟨rfl, htext, hcs⟩ := label_append_inj (fill indent b.depth) rfl [] ha hb hs hs' hname
    cases String.toList_injective htext
    exact ⟨rfl, hcs⟩

end Entry

mutual

theorem isLegible_of_mem_entries {node : Node} {depth : Nat}
    (h : ∀ token ∈ node.leaves, Token.Legible token.category token.text.toList) :
    ∀ entry ∈ node.entries depth, entry.IsLegible := by
  intro entry he
  cases node with
  | leaf token =>
    rw [entries, List.mem_singleton] at he
    subst he
    exact Or.inr (h token (by simp))
  | tree category children =>
    rw [leaves_tree] at h
    rw [entries] at he
    rcases List.mem_cons.1 he with rfl | he
    · exact Or.inl rfl
    · exact isLegible_of_mem_entriesAll h entry he

theorem isLegible_of_mem_entriesAll {nodes : List Node} {depth : Nat}
    (h : ∀ token ∈ leavesAll nodes, Token.Legible token.category token.text.toList) :
    ∀ entry ∈ entriesAll depth nodes, entry.IsLegible := by
  intro entry he
  cases nodes with
  | nil =>
    rw [entriesAll] at he
    cases he
  | cons node rest =>
    rw [leavesAll_cons] at h
    obtain ⟨hnode, hrest⟩ := List.forall_mem_append.1 h
    rw [entriesAll] at he
    rcases List.mem_append.1 he with he | he
    · exact isLegible_of_mem_entries hnode entry he
    · exact isLegible_of_mem_entriesAll hrest entry he

end

/-- The tokens have texts, and the ends of these can be seen. -/
def HasLegibleLeaves (node : Node) : Prop :=
  ∀ token ∈ node.leaves, token.text ≠ "" ∧ Token.Legible token.category token.text.toList

/-- A node is known from its outline. -/
theorem eq_of_outline_eq {a b : Node} {indent : String} (ha : a.HasLegibleLeaves)
    (hb : b.HasLegibleLeaves) (he : a.outline indent = b.outline indent) : a = b := by
  have hlines := congrArg String.toList he
  rw [outline_eq, outline_eq, String.toList_intercalate, String.toList_intercalate, List.map_map,
    List.map_map] at hlines
  refine entries_inj ?_ ?_ ((Entry.readable_line indent).eq_of_intercalate_eq
    (isLegible_of_mem_entries fun token ht => (ha token ht).2)
    (isLegible_of_mem_entries fun token ht => (hb token ht).2) hlines)
  · simpa [HasTexts] using fun token ht => (ha token ht).1
  · simpa [HasTexts] using fun token ht => (hb token ht).1

theorem toList_row (token : Token) :
    (leaf token).row.toList =
      token.category.name.toList ++ (List.replicate (20 - token.category.name.length) ' ' ++
        '\t' :: ':' :: ' ' :: token.text.toList) := by
  simp [row, padRight, category, text]

/-- The row of a token is known from what begins with it. -/
theorem readable_row :
    Readable (fun token : Token => Token.Legible token.category token.text.toList)
      fun token => (leaf token).row.toList where
  ne_nil token := by
    rw [toList_row]
    simp
  append_inj a b cs cs' ha hb hs hs' he := by
    simp only [toList_row, List.append_assoc, List.cons_append] at he
    obtain ⟨category, text⟩ := a
    obtain ⟨rfl, htext, hcs⟩ := label_append_inj (20 - ·.name.length) rfl [':', ' '] (Or.inr ha)
      (Or.inr hb) hs hs' he
    cases String.toList_injective htext
    exact ⟨rfl, hcs⟩

/-- Tokens are known from their table. -/
theorem eq_of_table_eq {tokens tokens' : List Token}
    (h : ∀ token ∈ tokens, Token.Legible token.category token.text.toList)
    (h' : ∀ token ∈ tokens', Token.Legible token.category token.text.toList)
    (he : table (tokens.map .leaf) = table (tokens'.map .leaf)) : tokens = tokens' := by
  have hlines := congrArg String.toList he
  rw [table, table, String.toList_intercalate, String.toList_intercalate, List.map_map,
    List.map_map, List.map_map, List.map_map] at hlines
  exact readable_row.eq_of_intercalate_eq h h' hlines

end Node

/-- Scanning gives tokens that have texts, and the ends of these can be seen. -/
theorem Token.legible_of_scan {text : String} {tokens : List Token} (h : scan text = .ok tokens) :
    ∀ token ∈ tokens, token.text ≠ "" ∧ Legible token.category token.text.toList := by
  obtain ⟨gaps, later, rfl, hs⟩ := scanFrom_eq_ok_iff.1 h
  intro token ht
  obtain ⟨next, hf⟩ := hs.exists_fits ht
  exact ⟨hf.text_ne, hf.legible⟩

/-- Listings are unambiguous: two programs that are read from texts, by any options, are equal if their
outlines are, and so are the tokens of two texts if their tables are. -/
theorem outline_and_table_injective [CallStack] :
    (∀ (source source' : String) (tokens tokens' : List Token) (options options' : Options)
      (tree tree' : Node) (indent : String),
      Token.scan source = .ok tokens → Token.scan source' = .ok tokens' →
      Program.read (tokens.map .leaf) options = .ok tree →
      Program.read (tokens'.map .leaf) options' = .ok tree' →
      tree.outline indent = tree'.outline indent → tree = tree') ∧
    (∀ (source source' : String) (tokens tokens' : List Token),
      Token.scan source = .ok tokens → Token.scan source' = .ok tokens' →
      Node.table (tokens.map .leaf) = Node.table (tokens'.map .leaf) → tokens = tokens') := by
  constructor
  · intro source source' tokens tokens' options options' tree tree' indent hs hs' hr hr' he
    refine Node.eq_of_outline_eq ?_ ?_ he
    · rw [Node.HasLegibleLeaves, Program.leaves_of_read_tokens hr]
      exact Token.legible_of_scan hs
    · rw [Node.HasLegibleLeaves, Program.leaves_of_read_tokens hr']
      exact Token.legible_of_scan hs'
  · intro source source' tokens tokens' hs hs' he
    exact Node.eq_of_table_eq (fun token ht => (Token.legible_of_scan hs token ht).2)
      (fun token ht => (Token.legible_of_scan hs' token ht).2) he

/-- A string whose text goes on like an outline and a table, in two texts and read in both modes. -/
theorem outline_and_table_injective_string :
    let text := "\"\n  SExpr\nLiteral             \t: )\""
    let tokens : List Token := [.openParen, ⟨.string, text⟩, .closeParen]
    let tree : Node := .tree .program [.tree .sexpr [.tree .list [.leaf .openParen,
      .tree .seq [.tree .sexpr [.tree .atom [.leaf ⟨.string, text⟩]]], .leaf .closeParen]]]
    Token.scan ("(" ++ text ++ ")") = .ok tokens ∧
      Program.read (tokens.map .leaf) (.ready {}) = .ok tree ∧
      ∃ tokens' tree', Token.scan (" (\n" ++ text ++ " )") = .ok tokens' ∧
        Program.read (tokens'.map .leaf) (.ready { flat := true }) = .ok tree' ∧
        (tree.outline "" = tree'.outline "" ∧ tree = tree') ∧
        Node.table (tokens.map .leaf) = Node.table (tokens'.map .leaf) ∧ tokens = tokens' := by
  intro text tokens tree
  have hscan : Token.scan ("(" ++ text ++ ")") = .ok tokens := eq_ok_of_toOption (by decide +kernel)
  have hscan' : Token.scan (" (\n" ++ text ++ " )") = .ok tokens :=
    eq_ok_of_toOption (by decide +kernel)
  have hread : Program.read (tokens.map .leaf) (.ready {}) = .ok tree :=
    eq_ok_of_toOption (by decide +kernel)
  have hread' : Program.read (tokens.map .leaf) (.ready { flat := true }) = .ok tree :=
    eq_ok_of_toOption (by decide +kernel)
  obtain ⟨htrees, htokens⟩ := outline_and_table_injective
  exact ⟨hscan, hread, tokens, tree, hscan', hread',
    ⟨rfl, htrees _ _ _ _ _ _ _ _ "" hscan hscan' hread hread' rfl⟩,
    rfl, htokens _ _ _ _ hscan hscan' rfl⟩

end SexprReader
