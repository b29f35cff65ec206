import SexprReader.Proofs.Lexeme
import SexprReader.Proofs.Runs

/-!
# Segmentations

A segmentation of a text cuts it into gaps of blanks and the texts of tokens, each of which fits
where it stands (`Segments`).  Scanning gives the tokens of the segmentation of a text, and fails
where there is none (`scanFrom_eq_ok_iff`); and no text has a second one (`Segments.unique`), since
the gaps go as far as blanks do and what follows a gap settles its token.
-/

namespace SexprReader

namespace Token

/-- Blanks only. -/
def IsGap (cs : List Char) : Prop := ∀ c ∈ cs, isBlank c = true

/-- The text is the gaps and the texts of the tokens in turn, a gap at either end, and each token
fits before the rest of the text. -/
inductive Segments : List (List Char) → List Token → List Char → Prop
  | last {gap : List Char} (hg : IsGap gap) : Segments [gap] [] gap
  | token {gap rest : List Char} {gaps : List (List Char)} {token : Token} {tokens : List Token}
      (hg : IsGap gap) (hf : Fits token.category token.text.toList rest)
      (hs : Segments gaps tokens rest) :
      Segments (gap :: gaps) (token :: tokens) (gap ++ (token.text.toList ++ rest))

/-! ### Gaps -/

/-- A gap before a token goes as far as blanks do. -/
theorem Fits.stops {category : Category} {lexeme next : List Char}
    (h : Fits category lexeme next) : Stops isBlank (lexeme ++ next) := by
  obtain ⟨c, rest, rfl, hc⟩ := h.exists_cons
  intro d hd
  cases hd
  exact hc

theorem Segments.cons_blank {c : Char} {gaps : List (List Char)} {tokens : List Token}
    {cs : List Char} (hc : isBlank c = true) (h : Segments gaps tokens cs) :
    ∃ gaps', Segments gaps' tokens (c :: cs) := by
  have more : ∀ {gap : List Char}, IsGap gap → IsGap (c :: gap) := fun hg =>
    List.forall_mem_cons.2 ⟨hc, hg⟩
  cases h with
  | last hg => exact ⟨_, .last (more hg)⟩
  | token hg hf hs => exact ⟨_, .token (more hg) hf hs⟩

theorem scanFrom_append_of_isGap (found : List Token) {gap : List Char} (hg : IsGap gap)
    (cs : List Char) : scanFrom found (gap ++ cs) = scanFrom found cs := by
  induction gap with
  | nil => rfl
  | cons c gap ih =>
    obtain ⟨hc, hg⟩ := List.forall_mem_cons.1 hg
    rw [List.cons_append, scanFrom_of_isBlank found _ hc, ih hg]

/-! ### Scanning -/

/-- A token that fits is found. -/
theorem scanFrom_append_of_fits (found : List Token) {token : Token} {rest : List Char}
    (h : Fits token.category token.text.toList rest) :
    scanFrom found (token.text.toList ++ rest) = scanFrom (token :: found) rest := by
  have hl := lexeme?_eq_some_iff.2 ⟨rfl, h⟩
  obtain ⟨c, cs, hcs, hc⟩ := h.exists_cons
  rw [hcs, List.cons_append] at hl ⊢
  exact scanFrom_of_lexeme?_eq_some found hc hl

theorem scanFrom_eq_ok_iff {found tokens : List Token} {cs : List Char} :
    scanFrom found cs = .ok tokens ↔
      ∃ gaps later, tokens = found.reverse ++ later ∧ Segments gaps later cs := by
  constructor
  · intro h
    fun_induction scanFrom found cs with
    | case1 found =>
      cases h
      exact ⟨_, [], (List.append_nil _).symm, .last fun c hc => absurd hc List.not_mem_nil⟩
    | case2 found c rest hb ih =>
      obtain ⟨gaps, later, rfl, hs⟩ := ih h
      obtain ⟨gaps', hs'⟩ := hs.cons_blank hb
      exact ⟨gaps', later, rfl, hs'⟩
    | case3 => cases h
    | case4 found c cs hb token rest hl ih =>
      obtain ⟨gaps, later, rfl, hs⟩ := ih h
      obtain ⟨hcs, hf⟩ := lexeme?_eq_some_iff.1 hl
      refine ⟨[] :: gaps, token :: later, by simp, ?_⟩
      rw [hcs]
      exact .token (fun c hc => absurd hc List.not_mem_nil) hf hs
  · rintro ⟨gaps, later, rfl, hs⟩
    induction hs generalizing found with
    | @last gap hg =>
      have := scanFrom_append_of_isGap found hg []
      rw [List.append_nil] at this
      rw [this, scanFrom_nil, List.append_nil]
    | @token gap rest gaps token tokens hg hf _ ih =>
      rw [scanFrom_append_of_isGap found hg, scanFrom_append_of_fits found hf, ih]
      simp

/-! ### Uniqueness -/

/-- A gap before a token is the longest run of blanks. -/
theorem Fits.takeWhile_isBlank {category : Category} {gap lexeme next : List Char} (hg : IsGap gap)
    (h : Fits category lexeme next) : (gap ++ (lexeme ++ next)).takeWhile isBlank = gap :=
  takeWhile_append_of_stops hg h.stops

theorem Segments.unique {gaps gaps' : List (List Char)} {tokens tokens' : List Token}
    {cs : List Char} (h : Segments gaps tokens cs) (h' : Segments gaps' tokens' cs) :
    gaps' = gaps ∧ tokens' = tokens := by
  -- both segmentations begin with the longest run of blanks, and with the token that fits behind it
  induction h generalizing gaps' tokens' with
  | @last gap hg =>
    cases h' with
    | last => exact ⟨rfl, rfl⟩
    | token hg' hf =>
      have hlast := List.takeWhile_eq_self_iff.2 hg
      rw [hf.takeWhile_isBlank hg', List.self_eq_append_right, List.append_eq_nil_iff] at hlast
      obtain ⟨c, rest, hc, -⟩ := hf.exists_cons
      rw [hlast.1] at hc
      cases hc
  | @token gap rest gaps token tokens hg hf _ ih =>
    generalize hcs : gap ++ (token.text.toList ++ rest) = cs at h'
    have hgap := hf.takeWhile_isBlank hg
    rw [hcs] at hgap
    cases h' with
    | last hg' =>
      rw [List.takeWhile_eq_self_iff.2 hg'] at hgap
      rw [hgap, List.append_right_eq_self, List.append_eq_nil_iff] at hcs
      obtain ⟨c, rest, hc, -⟩ := hf.exists_cons
      rw [hcs.1] at hc
      cases hc
    | @token gap' rest' gaps' token' tokens' hg' hf' hs' =>
      rw [hf'.takeWhile_isBlank hg'] at hgap
      subst hgap
      have hl := lexeme?_eq_some_iff.2 ⟨rfl, hf⟩
      rw [List.append_cancel_left hcs, lexeme?_eq_some_iff.2 ⟨rfl, hf'⟩] at hl
      cases hl
      obtain ⟨rfl, rfl⟩ := ih hs'
      exact ⟨rfl, rfl⟩

/-! ### Texts -/

theorem Fits.text_ne {token : Token} {next : List Char}
    (h : Fits token.category token.text.toList next) : token.text ≠ "" := by
  obtain ⟨c, rest, hc, -⟩ := h.exists_cons
  intro he
  rw [he] at hc
  cases hc

/-- A sign on its own is no literal. -/
theorem Fits.text_ne_sign {token : Token} {next : List Char}
    (h : Fits token.category token.text.toList next) (hc : token.category = .literal) :
    token.text ≠ "+" ∧ token.text ≠ "-" := by
  obtain ⟨category, text⟩ := token
  subst hc
  cases h with
  | literal h =>
    constructor
    · rintro rfl
      revert h
      decide
    · rintro rfl
      revert h
      decide

theorem Segments.exists_fits {gaps : List (List Char)} {tokens : List Token} {cs : List Char}
    (h : Segments gaps tokens cs) {token : Token} (ht : token ∈ tokens) :
    ∃ next, Fits token.category token.text.toList next := by
  induction h with
  | last => cases ht
  | token _ hf _ ih =>
    rcases List.mem_cons.1 ht with rfl | ht
    · exact ⟨_, hf⟩
    · exact ih ht

/-- Scanning gives the tokens of the segmentation of the text, and fails if there is none.  There are
no two segmentations, none of their tokens is empty, and a sign is no literal. -/
theorem scan_eq_ok_iff_segments (text : String) (tokens : List Token) :
    (scan text = .ok tokens ↔ ∃ gaps, Segments gaps tokens text.toList) ∧
    (∀ gaps gaps' tokens', Segments gaps tokens text.toList →
      Segments gaps' tokens' text.toList → gaps' = gaps ∧ tokens' = tokens) ∧
    (scan text = .ok tokens → ∀ token ∈ tokens, token.text ≠ "" ∧
      (token.category = .literal → token.text ≠ "+" ∧ token.text ≠ "-")) := by
  have hscan : scan text = .ok tokens ↔ ∃ gaps, Segments gaps tokens text.toList := by
    rw [scan, scanFrom_eq_ok_iff]
    constructor
    · rintro ⟨gaps, later, rfl, hs⟩
      exact ⟨gaps, hs⟩
    · rintro ⟨gaps, hs⟩
      exact ⟨gaps, tokens, rfl, hs⟩
  refine ⟨hscan, fun gaps gaps' tokens' h h' => h.unique h', fun h token ht => ?_⟩
  obtain ⟨gaps, hs⟩ := hscan.1 h
  obtain ⟨next, hf⟩ := hs.exists_fits ht
  exact ⟨hf.text_ne, hf.text_ne_sign⟩

/-- A real number that ends before a letter, an integer that ends before two points, a string with a
quote in it, and a sign before a `(`. -/
theorem scan_eq_ok_iff_segments_adjacent :
    let text := "-.5x 12..5 \"a\\\"(\"+("
    let tokens : List Token :=
      [⟨.real, "-.5"⟩, ⟨.identifier, "x"⟩, ⟨.integer, "12"⟩, ⟨.identifier, "..5"⟩,
        ⟨.string, "\"a\\\"(\""⟩, ⟨.identifier, "+"⟩, ⟨.literal, "("⟩]
    scan text = .ok tokens ∧
      (∃ gaps, Segments gaps tokens text.toList ∧ ∀ gaps' tokens',
        Segments gaps' tokens' text.toList → gaps' = gaps ∧ tokens' = tokens) ∧
      ∀ token ∈ tokens, token.text ≠ "" ∧
        (token.category = .literal → token.text ≠ "+" ∧ token.text ≠ "-") := by
  intro text tokens
  have hscan : scan text = .ok tokens := eq_ok_of_toOption (by decide +kernel)
  obtain ⟨hiff, hunique, htexts⟩ := scan_eq_ok_iff_segments text tokens
  obtain ⟨gaps, hs⟩ := hiff.1 hscan
  exact ⟨hscan, ⟨gaps, hs, fun gaps' tokens' hs' => hunique gaps gaps' tokens' hs hs'⟩, htexts hscan⟩

end Token

end SexprReader
