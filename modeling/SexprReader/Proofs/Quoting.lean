import SexprReader.Proofs.Segmentation

/-!
# Where strings open and close

Scanning fails just where a string has no end, whatever stands around it.  To find out, it is enough
to follow the quotes: `QuoteState.walk` goes through the characters of a text and knows no more than
whether it is inside a string, and whether a backslash came last.

Tokens leave the walk outside of strings: a string closes at its own last character
(`walk_outside_of_isString`), and no other token holds a quote (`Fits.walk_outside`).  Where no rule
fits, a quote comes next (`closing_eq_none_of_lexeme?`), and behind it the walk never gets outside
again (`IsDeadEnd.walk_inside_ne`).  So the state at the end tells whether there are tokens
(`scan_eq_error_iff_walk`).
-/

namespace SexprReader

namespace Token

/-- What is known of the quotes so far. -/
inductive QuoteState where
  | outside
  | inside
  /-- Inside a string and behind a backslash. -/
  | escaped
  /-- A line feed came behind a backslash. -/
  | broken
deriving DecidableEq

namespace QuoteState

/-- What is known one character later. -/
def step : QuoteState → Char → QuoteState
  | outside, c => if c = '"' then inside else outside
  | inside, c => if c = '"' then outside else if c = '\\' then escaped else inside
  | escaped, c => if c = '\n' then broken else inside
  | broken, _ => broken

/-- What is known behind the characters. -/
def walk (state : QuoteState) (cs : List Char) : QuoteState := cs.foldl step state

theorem walk_cons (state : QuoteState) (c : Char) (cs : List Char) :
    state.walk (c :: cs) = (state.step c).walk cs := rfl

theorem walk_append (state : QuoteState) (as bs : List Char) :
    state.walk (as ++ bs) = (state.walk as).walk bs := List.foldl_append

theorem walk_broken (cs : List Char) : broken.walk cs = broken := by
  induction cs with
  | nil => rfl
  | cons c cs ih => exact ih

theorem walk_outside {cs : List Char} (h : ∀ c ∈ cs, c ≠ '"') : outside.walk cs = outside := by
  induction cs with
  | nil => rfl
  | cons c cs ih =>
    obtain ⟨hc, hcs⟩ := List.forall_mem_cons.1 h
    rw [walk_cons, step, if_neg hc, ih hcs]

end QuoteState

open QuoteState

/-! ### Tokens -/

section Lexemes

variable {lexeme : List Char}

theorem walk_inside_of_isQuotable (h : IsQuotable lexeme) : inside.walk lexeme = inside := by
  induction h with
  | nil => rfl
  | escaped hc _ ih =>
    rw [walk_cons, walk_cons, step, if_neg (by decide), if_pos rfl, step, if_neg hc, ih]
  | plain hb hq _ ih => rw [walk_cons, step, if_neg hq, if_neg hb, ih]

theorem walk_outside_of_isString (h : IsString lexeme) : outside.walk lexeme = outside := by
  obtain ⟨inner, rfl, hi⟩ := h
  rw [walk_cons, step, if_pos rfl, walk_append, walk_inside_of_isQuotable hi]
  rfl

theorem walk_outside_of_isPlain (h : ∀ c ∈ lexeme, isPlain c = true) :
    outside.walk lexeme = outside := by
  refine walk_outside fun c hc => ?_
  rintro rfl
  exact absurd (h _ hc) (by decide)

/-- A token is left outside of strings, if it is reached there. -/
theorem Fits.walk_outside {category : Category} {next : List Char}
    (h : Fits category lexeme next) : outside.walk lexeme = outside := by
  cases h with
  | real h => exact walk_outside_of_isPlain h.isPlain
  | integer h => exact walk_outside_of_isPlain h.isPlain
  | string h => exact walk_outside_of_isString h
  | identifier h => exact walk_outside_of_isPlain h.2.1
  | literal h => rcases h with rfl | rfl <;> rfl

end Lexemes

theorem IsGap.walk_outside {gap : List Char} (h : IsGap gap) : outside.walk gap = outside := by
  refine QuoteState.walk_outside fun c hc => ?_
  rintro rfl
  exact absurd (h _ hc) (by decide)

/-- A text with a segmentation leaves no string open. -/
theorem Segments.walk_outside {gaps : List (List Char)} {tokens : List Token} {cs : List Char}
    (h : Segments gaps tokens cs) : outside.walk cs = outside := by
  induction h with
  | last hg => exact hg.walk_outside
  | token hg hf _ ih => rw [walk_append, hg.walk_outside, walk_append, hf.walk_outside, ih]

/-! ### Strings without an end -/

/-- Where a string cannot go on: at the end of the text, also behind a backslash, and at a backslash
before a line feed. -/
def IsDeadEnd (cs : List Char) : Prop :=
  cs = [] ∨ cs = ['\\'] ∨ ∃ more, cs = '\\' :: '\n' :: more

theorem IsDeadEnd.walk_inside_ne {cs : List Char} (h : IsDeadEnd cs) :
    inside.walk cs ≠ outside := by
  rcases h with rfl | rfl | ⟨more, rfl⟩
  · decide
  · decide
  · have hbroken : inside.walk ('\\' :: '\n' :: more) = broken := walk_broken more
    rw [hbroken]
    decide

/-- A string without an end comes to a place where it cannot go on. -/
theorem exists_isDeadEnd_of_closing {seen cs : List Char} (h : closing seen cs = none) :
    ∃ inner rest, cs = inner ++ rest ∧ IsQuotable inner ∧ IsDeadEnd rest := by
  fun_induction closing seen cs with
  | case1 => exact ⟨[], [], rfl, .nil, Or.inl rfl⟩
  | case2 => cases h
  | case3 => exact ⟨[], _, rfl, .nil, Or.inr (Or.inl rfl)⟩
  | case4 seen cs => exact ⟨[], _, rfl, .nil, Or.inr (Or.inr ⟨cs, rfl⟩)⟩
  | case5 seen c cs hc _ ih =>
    obtain ⟨inner, rest, rfl, hi, hr⟩ := ih h
    exact ⟨'\\' :: c :: inner, rest, rfl, .escaped hc hi, hr⟩
  | case6 seen c cs hq hb ih =>
    obtain ⟨inner, rest, rfl, hi, hr⟩ := ih h
    exact ⟨c :: inner, rest, rfl, .plain hb hq hi, hr⟩

/-- Only a string can want a token: any other character begins one. -/
theorem closing_eq_none_of_lexeme? {c : Char} {cs : List Char} (hb : isBlank c = false)
    (h : lexeme? (c :: cs) = none) : c = '"' ∧ closing ['"'] cs = none := by
  have hrules : ∀ entry ∈ rules, entry.2 (c :: cs) = none := by
    intro entry he
    have := List.findSome?_eq_none_iff.1 h entry he
    simpa using this
  have hstring : string? (c :: cs) = none := hrules (.string, string?) (by simp [rules])
  have hidentifier : identifier? (c :: cs) = none :=
    hrules (.identifier, identifier?) (by simp [rules])
  have hliteral : literal? (c :: cs) = none := hrules (.literal, literal?) (by simp [rules])
  have hquote : c = '"' := by
    have hplain : isPlain c = false := by
      refine Bool.eq_false_iff.2 fun hp => ?_
      simp [identifier?, hp] at hidentifier
    obtain ⟨ho, hc, -⟩ : c ≠ '(' ∧ c ≠ ')' ∧ c ≠ '+' ∧ c ≠ '-' := by simpa [literal?] using hliteral
    simpa [isPlain, hb, ho, hc] using hplain
  subst hquote
  exact ⟨rfl, hstring⟩

/-- Where scanning fails, a string was opened that comes to no end. -/
theorem exists_isDeadEnd_of_scanFrom {found : List Token} {cs : List Char} {fault : ScanFault}
    (h : scanFrom found cs = .error fault) :
    ∃ before inner rest, cs = before ++ '"' :: (inner ++ rest) ∧ outside.walk before = outside ∧
      IsQuotable inner ∧ IsDeadEnd rest := by
  fun_induction scanFrom found cs with
  | case1 => cases h
  | case2 found c cs hb ih =>
    obtain ⟨before, inner, rest, rfl, hw, hi, hr⟩ := ih h
    have hc : c ≠ '"' := by
      rintro rfl
      exact absurd hb (by decide)
    refine ⟨c :: before, inner, rest, rfl, ?_, hi, hr⟩
    rw [walk_cons, step, if_neg hc, hw]
  | case3 found c cs hb hl =>
    obtain ⟨rfl, hclosing⟩ := closing_eq_none_of_lexeme? (by simpa using hb) hl
    obtain ⟨inner, rest, rfl, hi, hr⟩ := exists_isDeadEnd_of_closing hclosing
    exact ⟨[], inner, rest, rfl, rfl, hi, hr⟩
  | case4 found c cs hb token later hl ih =>
    obtain ⟨before, inner, rest, rfl, hw, hi, hr⟩ := ih h
    obtain ⟨hcs, hf⟩ := lexeme?_eq_some_iff.1 hl
    refine ⟨token.text.toList ++ before, inner, rest, by rw [hcs, List.append_assoc], ?_, hi, hr⟩
    rw [walk_append, hf.walk_outside, hw]

theorem walk_ne_outside_of_isDeadEnd {before inner rest : List Char}
    (hw : outside.walk before = outside) (hi : IsQuotable inner) (hr : IsDeadEnd rest) :
    outside.walk (before ++ '"' :: (inner ++ rest)) ≠ outside := by
  rw [walk_append, hw, walk_cons, step, if_pos rfl, walk_append, walk_inside_of_isQuotable hi]
  exact hr.walk_inside_ne

/-- There are tokens just where the walk ends outside of strings. -/
theorem exists_scan_eq_ok_iff {text : String} :
    (∃ tokens, scan text = .ok tokens) ↔ outside.walk text.toList = outside := by
  constructor
  · rintro ⟨tokens, h⟩
    obtain ⟨gaps, later, -, hs⟩ := scanFrom_eq_ok_iff.1 h
    exact hs.walk_outside
  · intro h
    cases hs : scan text with
    | ok tokens => exact ⟨tokens, rfl⟩
    | error fault =>
      obtain ⟨before, inner, rest, hcs, hw, hi, hr⟩ := exists_isDeadEnd_of_scanFrom hs
      rw [hcs] at h
      exact absurd h (walk_ne_outside_of_isDeadEnd hw hi hr)

/-- Scanning fails just where the walk along the quotes does not end outside of strings.  Then the
text has tokens up to a quote, and the string behind it lacks its end or has a backslash before a line
feed; nothing else can go wrong. -/
theorem scan_eq_error_iff_walk (text : String) :
    (scan text = .error .noToken ↔ outside.walk text.toList ≠ outside) ∧
    (scan text = .error .noToken ↔
      ∃ before inner rest tokens, text.toList = before ++ '"' :: (inner ++ rest) ∧
        scan (String.ofList before) = .ok tokens ∧ IsQuotable inner ∧ IsDeadEnd rest) := by
  have hwalk : scan text = .error .noToken ↔ outside.walk text.toList ≠ outside := by
    rw [ne_eq, ← exists_scan_eq_ok_iff]
    cases scan text with
    | ok tokens => simp
    | error fault =>
      cases fault
      simp
  refine ⟨hwalk, fun h => ?_, ?_⟩
  · obtain ⟨before, inner, rest, hcs, hw, hi, hr⟩ := exists_isDeadEnd_of_scanFrom h
    obtain ⟨tokens, hs⟩ : ∃ tokens, scan (String.ofList before) = .ok tokens := by
      rwa [exists_scan_eq_ok_iff, String.toList_ofList]
    exact ⟨before, inner, rest, tokens, hcs, hs, hi, hr⟩
  · rintro ⟨before, inner, rest, tokens, hcs, hs, hi, hr⟩
    have hw : outside.walk before = outside := by
      have := exists_scan_eq_ok_iff.1 ⟨tokens, hs⟩
      rwa [String.toList_ofList] at this
    rw [hwalk, hcs]
    exact walk_ne_outside_of_isDeadEnd hw hi hr

/-- A quote comes behind the line feed, and the string has no end all the same. -/
example : outside.walk "a \"b\\\n\" c".toList = broken := by decide

end Token

end SexprReader
