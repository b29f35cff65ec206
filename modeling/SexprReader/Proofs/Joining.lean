import SexprReader.Proofs.Segmentation

/-!
# Texts side by side

Whether a token fits depends on what follows it no further than to the next character that is not
plain: a blank, a quote or a parenthesis.  So a token that fits somewhere fits before every such
character (`Fits.of_stops`), and a token that fits in a text also fits when more text follows that
begins so (`Fits.append`).

Two laws follow.  Tokens that are set side by side with blanks between them are scanned again as they
were (`scan_intercalate`).  And scanning goes through a concatenation part by part, if the second part
does not begin with a plain character (`scan_append`).
-/

namespace SexprReader

namespace Token

/-! ### What follows a token -/

section Stops

variable {kind : Char → Bool} {cs more : List Char}

theorem Stops.append (h : Stops kind cs) (hm : Stops kind more) : Stops kind (cs ++ more) := by
  cases cs with
  | nil => exact hm
  | cons c cs => exact h

theorem Stops.isDigit (h : Stops isPlain cs) : Stops Char.isDigit cs := by
  intro c hc
  refine Bool.eq_false_iff.2 fun hd => ?_
  have := h c hc
  rw [isPlain_of_isDigit hd] at this
  cases this

/-- A point is plain. -/
theorem Stops.ne_point (h : Stops isPlain cs) (rest : List Char) : cs ≠ '.' :: rest := by
  rintro rfl
  exact absurd (h '.' rfl) (by decide)

theorem stops_of_isGap {gap : List Char} (hg : IsGap gap) (hne : gap ≠ []) (cs : List Char) :
    Stops isPlain (gap ++ cs) := by
  obtain ⟨b, gap, rfl⟩ := List.exists_cons_of_ne_nil hne
  intro c hc
  cases hc
  simp [isPlain, hg b List.mem_cons_self]

end Stops

section Fits

variable {category : Category} {lexeme next more : List Char}

/-- A token that fits anywhere fits where no plain character follows. -/
theorem Fits.of_stops (h : Fits category lexeme next) (hm : Stops isPlain more) :
    Fits category lexeme more := by
  cases h with
  | real h => exact .real h hm.isDigit
  | integer h => exact .integer h hm.isDigit fun digit rest he => absurd he (hm.ne_point _)
  | string h => exact .string h
  | identifier h => exact .identifier h hm
  | literal h => exact .literal h

/-- More text that does not begin with a plain character changes nothing for a token before it. -/
theorem Fits.append (h : Fits category lexeme next) (hm : Stops isPlain more) :
    Fits category lexeme (next ++ more) := by
  cases h with
  | real h hd => exact .real h (hd.append hm.isDigit)
  | integer h hd hp =>
    refine .integer h (hd.append hm.isDigit) fun digit rest he => ?_
    rcases next with _ | ⟨c, _ | ⟨d, next⟩⟩
    · exact absurd he (hm.ne_point _)
    · -- the point ends the first text, and the digit would have to begin the second
      cases he
      exact hm.isDigit digit rfl
    · cases he
      exact hp digit next rfl
  | string h => exact .string h
  | identifier h hn => exact .identifier h (hn.append hm)
  | literal h => exact .literal h

end Fits

/-! ### Scanning behind a text -/

/-- What was found before stays in front of what is found. -/
theorem scanFrom_append_found (found earlier : List Token) (cs : List Char) :
    scanFrom (found ++ earlier) cs = (earlier.reverse ++ ·) <$> scanFrom found cs := by
  fun_induction scanFrom found cs with
  | case1 found => rw [scanFrom_nil, List.reverse_append]; rfl
  | case2 found c cs hb ih => rw [scanFrom_of_isBlank _ _ hb, ih]
  | case3 found c cs hb hl =>
    rw [scanFrom_of_lexeme?_eq_none _ (by simpa using hb) hl]
    rfl
  | case4 found c cs hb token rest hl ih =>
    rw [scanFrom_of_lexeme?_eq_some _ (by simpa using hb) hl, ← List.cons_append, ih]

/-- Scanning goes through a text with a segmentation and then on behind it. -/
theorem Segments.scanFrom_append {gaps : List (List Char)} {tokens : List Token}
    {cs more : List Char} (h : Segments gaps tokens cs) (hm : Stops isPlain more)
    (found : List Token) :
    scanFrom found (cs ++ more) = scanFrom (tokens.reverse ++ found) more := by
  induction h generalizing found with
  | last hg => exact scanFrom_append_of_isGap found hg more
  | @token gap rest gaps token tokens hg hf _ ih =>
    rw [List.append_assoc, List.append_assoc, scanFrom_append_of_isGap found hg,
      scanFrom_append_of_fits found (hf.append hm), ih, List.reverse_cons, List.append_assoc]
    rfl

/-- If a text has tokens, and another one is empty or begins with a blank, a parenthesis or a quote,
then both together have the tokens of the one and then those of the other, and none if the other has
none. -/
theorem scan_append {first second : String} {tokens : List Token} (h : scan first = .ok tokens)
    (hd : ∀ c ∈ second.toList.head?, isBlank c = true ∨ c = '(' ∨ c = ')' ∨ c = '"') :
    scan (first ++ second) = (tokens ++ ·) <$> scan second := by
  have hstops : Stops isPlain second.toList := by
    intro c hc
    rcases hd c hc with hb | rfl | rfl | rfl
    · simp [isPlain, hb]
    · decide
    · decide
    · decide
  obtain ⟨gaps, later, rfl, hs⟩ := scanFrom_eq_ok_iff.1 h
  have hfound := scanFrom_append_found [] tokens.reverse second.toList
  rw [List.nil_append, List.reverse_reverse] at hfound
  rw [scan, String.toList_append, hs.scanFrom_append hstops, List.append_nil, hfound]
  rfl

/-- An integer and a point before a string, and the tokens that the string and what is behind it
add. -/
theorem scan_append_point :
    let first := "(12."
    let second := "\".5\"7"
    let tokens : List Token := [⟨.literal, "("⟩, ⟨.integer, "12"⟩, ⟨.identifier, "."⟩]
    let later : List Token := [⟨.string, "\".5\""⟩, ⟨.integer, "7"⟩]
    scan first = .ok tokens ∧
      (∀ c ∈ second.toList.head?, isBlank c = true ∨ c = '(' ∨ c = ')' ∨ c = '"') ∧
      scan (first ++ second) = .ok (tokens ++ later) := by
  intro first second tokens later
  have hfirst : scan first = .ok tokens := eq_ok_of_toOption (by decide +kernel)
  have hsecond : scan second = .ok later := eq_ok_of_toOption (by decide +kernel)
  have hd : ∀ c ∈ second.toList.head?, isBlank c = true ∨ c = '(' ∨ c = ')' ∨ c = '"' := by
    have hhead : second.toList.head? = some '"' := by decide
    intro c hc
    rw [hhead] at hc
    cases hc
    decide
  refine ⟨hfirst, hd, ?_⟩
  rw [scan_append hfirst hd, hsecond]
  rfl

/-! ### Tokens with blanks between them -/

/-- Tokens that fit somewhere are found again with blanks between them. -/
theorem scanFrom_intercalate {sep : List Char} (hg : IsGap sep) (hne : sep ≠ [])
    {tokens : List Token}
    (ht : ∀ token ∈ tokens, ∃ next, Fits token.category token.text.toList next)
    (found : List Token) :
    scanFrom found (sep.intercalate (tokens.map (·.text.toList))) =
      .ok (found.reverse ++ tokens) := by
  induction tokens generalizing found with
  | nil => rw [List.map_nil, List.intercalate_nil, scanFrom_nil, List.append_nil]
  | cons token tokens ih =>
    obtain ⟨⟨next, hf⟩, ht⟩ := List.forall_mem_cons.1 ht
    have hlast := ih ht (token :: found)
    rw [List.reverse_cons, List.append_assoc, List.singleton_append] at hlast
    rw [← hlast]
    cases tokens with
    | nil =>
      have hend : Fits token.category token.text.toList [] := hf.of_stops fun c hc => nomatch hc
      have hone := scanFrom_append_of_fits found hend
      rwa [List.map_singleton, List.intercalate_singleton, List.map_nil, List.intercalate_nil,
        ← List.append_nil token.text.toList]
    | cons token' tokens =>
      rw [List.map_cons, List.map_cons, List.intercalate_cons_cons, List.append_assoc,
        scanFrom_append_of_fits found (hf.of_stops (stops_of_isGap hg hne _)),
        scanFrom_append_of_isGap _ hg]

/-- The tokens of a text are the tokens of their texts, set side by side with blanks between them. -/
theorem scan_intercalate {text sep : String} {tokens : List Token} (h : scan text = .ok tokens)
    (hne : sep ≠ "") (hb : ∀ c ∈ sep.toList, isBlank c = true) :
    scan (sep.intercalate (tokens.map Token.text)) = .ok tokens := by
  obtain ⟨gaps, later, rfl, hs⟩ := scanFrom_eq_ok_iff.1 h
  have hsep : sep.toList ≠ [] := by simpa using hne
  have := scanFrom_intercalate hb hsep (fun token ht => hs.exists_fits ht) []
  rwa [scan, String.toList_intercalate, List.map_map]

/-- Tokens that touch each other are pulled apart by a line feed and a no-break space. -/
theorem scan_intercalate_adjacent :
    let text := "5.(1.2.3a\"b c\"d"
    let tokens : List Token :=
      [⟨.integer, "5"⟩, ⟨.identifier, "."⟩, ⟨.literal, "("⟩, ⟨.real, "1.2"⟩, ⟨.real, ".3"⟩,
        ⟨.identifier, "a"⟩, ⟨.string, "\"b c\""⟩, ⟨.identifier, "d"⟩]
    scan text = .ok tokens ∧ "\n\u00a0" ≠ "" ∧ (∀ c ∈ "\n\u00a0".toList, isBlank c = true) ∧
      scan ("\n\u00a0".intercalate (tokens.map Token.text)) = .ok tokens := by
  intro text tokens
  have hscan : scan text = .ok tokens := eq_ok_of_toOption (by decide +kernel)
  have hne : "\n\u00a0" ≠ "" := by decide
  have hb : ∀ c ∈ "\n\u00a0".toList, isBlank c = true :=
    List.forall_mem_cons.2 ⟨by decide, List.forall_mem_singleton.2 (by decide)⟩
  exact ⟨hscan, hne, hb, scan_intercalate hscan hne hb⟩

end Token

end SexprReader
