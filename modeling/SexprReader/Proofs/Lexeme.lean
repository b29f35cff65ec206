import Mathlib.Data.List.TakeWhile
import SexprReader.Token.Scan

/-!
# Where tokens fit

The rules of the scanner are functions that are tried in order.  This file says which tokens they
give by the form of the text of the token and by what follows it (`Token.Fits`), with no order of
rules: a number ends where no digit follows, an integer does not stand before the rest of a real
number, an identifier ends where no plain character follows and does not begin as a number does.

Each rule gives the longest lexeme of its form (`real?_eq_some_iff`, `integer?_eq_some_iff`,
`string?_eq_some_iff`, `identifier?_eq_some_iff`).  What is left is when an earlier rule fits:
real numbers come before integers where a point and a digit follow (`real?_append_of_isInteger`), and
numbers before identifiers where one begins (`startsNumber_iff`).  So the first rule that fits gives
just the token that fits (`lexeme?_eq_some_iff`).
-/

namespace SexprReader

namespace Token

/-! ### Where a run of characters ends -/

/-- No character of the kind comes next. -/
def Stops (kind : Char → Bool) (cs : List Char) : Prop := ∀ c ∈ cs.head?, kind c = false

section Runs

variable {kind : Char → Bool} {run cs : List Char}

theorem takeWhile_append_of_stops (hr : ∀ c ∈ run, kind c = true) (hs : Stops kind cs) :
    (run ++ cs).takeWhile kind = run := by
  rw [List.takeWhile_append_of_pos hr]
  cases cs with
  | nil => simp
  | cons c cs => simp [hs c rfl]

theorem dropWhile_append_of_stops (hr : ∀ c ∈ run, kind c = true) (hs : Stops kind cs) :
    (run ++ cs).dropWhile kind = cs := by
  rw [List.dropWhile_append_of_pos hr]
  cases cs with
  | nil => rfl
  | cons c cs => simp [hs c rfl]

theorem stops_dropWhile (kind : Char → Bool) (cs : List Char) : Stops kind (cs.dropWhile kind) := by
  intro c hc
  have := List.head?_dropWhile_not kind cs
  rw [Option.mem_def.1 hc] at this
  simpa using this

/-- A run goes no further than the longest one. -/
theorem prefix_takeWhile (hr : ∀ c ∈ run, kind c = true) (hp : run <+: cs) :
    run <+: cs.takeWhile kind := by
  obtain ⟨rest, rfl⟩ := hp
  rw [List.takeWhile_append_of_pos hr]
  exact List.prefix_append _ _

end Runs

/-! ### The forms of lexemes -/

/-- A plus, a minus, or nothing. -/
def IsSign (cs : List Char) : Prop := cs = [] ∨ cs = ['+'] ∨ cs = ['-']

/-- An optional sign and digits, at least one of them. -/
def IsInteger (cs : List Char) : Prop :=
  ∃ sign digits, cs = sign ++ digits ∧ IsSign sign ∧ digits ≠ [] ∧ ∀ c ∈ digits, c.isDigit = true

/-- An optional sign, digits, a point, and digits, at least one of them after the point. -/
def IsReal (cs : List Char) : Prop :=
  ∃ sign whole fraction, cs = sign ++ (whole ++ '.' :: fraction) ∧ IsSign sign ∧
    (∀ c ∈ whole, c.isDigit = true) ∧ fraction ≠ [] ∧ ∀ c ∈ fraction, c.isDigit = true

/-- What may stand between the quotes of a string: characters other than backslashes and quotes,
and backslashes with any character behind them but a line feed. -/
inductive IsQuotable : List Char → Prop
  | nil : IsQuotable []
  | escaped {c : Char} {cs : List Char} (hc : c ≠ '\n') (h : IsQuotable cs) :
      IsQuotable ('\\' :: c :: cs)
  | plain {c : Char} {cs : List Char} (hb : c ≠ '\\') (hq : c ≠ '"') (h : IsQuotable cs) :
      IsQuotable (c :: cs)

/-- A quote, what may stand between quotes, and a quote. -/
def IsString (cs : List Char) : Prop := ∃ inner, cs = '"' :: (inner ++ ['"']) ∧ IsQuotable inner

/-- The text begins with a digit, or with a point and a digit, behind an optional sign. -/
def StartsNumber (cs : List Char) : Prop :=
  ∃ sign digit, IsSign sign ∧ digit.isDigit = true ∧
    (sign ++ [digit] <+: cs ∨ sign ++ ['.', digit] <+: cs)

/-- Plain characters, at least one, that do not begin as a number does. -/
def IsIdentifier (cs : List Char) : Prop :=
  cs ≠ [] ∧ (∀ c ∈ cs, isPlain c = true) ∧ ¬ StartsNumber cs

/-- The lexeme has the form of the category, and `next`, which follows it, does not go on with it. -/
inductive Fits : Category → List Char → List Char → Prop
  | real {lexeme next : List Char} (h : IsReal lexeme) (hd : Stops Char.isDigit next) :
      Fits .real lexeme next
  | integer {lexeme next : List Char} (h : IsInteger lexeme) (hd : Stops Char.isDigit next)
      (hp : ∀ digit rest, next = '.' :: digit :: rest → digit.isDigit = false) :
      Fits .integer lexeme next
  | string {lexeme next : List Char} (h : IsString lexeme) : Fits .string lexeme next
  | identifier {lexeme next : List Char} (h : IsIdentifier lexeme) (hn : Stops isPlain next) :
      Fits .identifier lexeme next
  | literal {lexeme next : List Char} (h : lexeme = ['('] ∨ lexeme = [')']) :
      Fits .literal lexeme next

/-! ### Signs -/

/-- The character is a plus or a minus. -/
def isSignChar (c : Char) : Bool := c = '+' || c = '-'

theorem isSign_sign (cs : List Char) : IsSign (sign cs) := by
  cases cs with
  | nil => exact Or.inl rfl
  | cons c cs =>
    rw [sign]
    split
    · rename_i hc
      rcases hc with rfl | rfl
      · exact Or.inr (Or.inl rfl)
      · exact Or.inr (Or.inr rfl)
    · exact Or.inl rfl

theorem sign_append {s cs : List Char} (h : IsSign s) (hc : Stops isSignChar cs) :
    sign (s ++ cs) = s := by
  rcases h with rfl | rfl | rfl
  · cases cs with
    | nil => rfl
    | cons c cs =>
      have := hc c rfl
      simp only [isSignChar, Bool.or_eq_false_iff, decide_eq_false_iff_not] at this
      simp [sign, this]
  · rfl
  · rfl

theorem unsigned_append {s cs : List Char} (h : IsSign s) (hc : Stops isSignChar cs) :
    unsigned (s ++ cs) = cs := by
  have := sign_append_unsigned (s ++ cs)
  rw [sign_append h hc] at this
  exact List.append_cancel_left this

theorem stops_isSignChar_of_isDigit {digits : List Char} (hne : digits ≠ [])
    (hd : ∀ c ∈ digits, c.isDigit = true) (cs : List Char) : Stops isSignChar (digits ++ cs) := by
  obtain ⟨c, digits, rfl⟩ := List.exists_cons_of_ne_nil hne
  intro d hm
  cases hm
  have hc := hd c List.mem_cons_self
  refine Bool.eq_false_iff.2 fun hs => ?_
  simp only [isSignChar, Bool.or_eq_true, decide_eq_true_eq] at hs
  rcases hs with rfl | rfl
  · exact absurd hc (by decide)
  · exact absurd hc (by decide)

theorem stops_isSignChar_point {whole : List Char} (hd : ∀ c ∈ whole, c.isDigit = true)
    (cs : List Char) : Stops isSignChar (whole ++ '.' :: cs) := by
  by_cases hw : whole = []
  · subst hw
    intro d hm
    cases hm
    decide
  · exact stops_isSignChar_of_isDigit hw hd _

/-! ### The rules, one by one -/

section Rules

variable {cs lexeme rest : List Char}

theorem stops_isDigit_point (cs : List Char) : Stops Char.isDigit ('.' :: cs) := by
  intro c hc
  cases hc
  decide

theorem integer?_eq_some_iff :
    integer? cs = some (lexeme, rest) ↔
      cs = lexeme ++ rest ∧ IsInteger lexeme ∧ Stops Char.isDigit rest := by
  constructor
  · intro h
    obtain ⟨hcs, -⟩ := integer?_splits h
    simp only [integer?] at h
    split at h
    · cases h
    · rename_i hd
      cases h
      exact ⟨hcs, ⟨_, _, rfl, isSign_sign cs, hd, fun _ => List.mem_takeWhile_imp⟩,
        stops_dropWhile _ _⟩
  · rintro ⟨rfl, ⟨s, digits, rfl, hs, hne, hd⟩, hr⟩
    have hc := stops_isSignChar_of_isDigit hne hd rest
    simp only [integer?, List.append_assoc, sign_append hs hc, unsigned_append hs hc,
      takeWhile_append_of_stops hd hr, dropWhile_append_of_stops hd hr, if_neg hne]

theorem real?_eq_some_iff :
    real? cs = some (lexeme, rest) ↔
      cs = lexeme ++ rest ∧ IsReal lexeme ∧ Stops Char.isDigit rest := by
  constructor
  · intro h
    obtain ⟨hcs, -⟩ := real?_splits h
    simp only [real?] at h
    split at h
    · split at h
      · cases h
      · rename_i hf
        cases h
        exact ⟨hcs, ⟨_, _, _, List.append_assoc _ _ _, isSign_sign cs, fun _ => List.mem_takeWhile_imp,
          hf, fun _ => List.mem_takeWhile_imp⟩, stops_dropWhile _ _⟩
    · cases h
  · rintro ⟨rfl, ⟨s, whole, fraction, rfl, hs, hw, hne, hf⟩, hr⟩
    have hc := stops_isSignChar_point hw (fraction ++ rest)
    have hp := stops_isDigit_point (fraction ++ rest)
    simp only [real?, List.append_assoc, List.cons_append, sign_append hs hc, unsigned_append hs hc,
      takeWhile_append_of_stops hw hp, dropWhile_append_of_stops hw hp,
      takeWhile_append_of_stops hf hr, dropWhile_append_of_stops hf hr, if_neg hne]

theorem closing_quote (seen cs : List Char) :
    closing seen ('"' :: cs) = some (('"' :: seen).reverse, cs) := by
  rw [closing.eq_def]
  rfl

theorem closing_escaped (seen : List Char) {c : Char} (h : c ≠ '\n') (cs : List Char) :
    closing seen ('\\' :: c :: cs) = closing (c :: '\\' :: seen) cs := by
  rw [closing.eq_def]
  simp [h]

theorem closing_plain (seen : List Char) {c : Char} (hb : c ≠ '\\') (hq : c ≠ '"')
    (cs : List Char) : closing seen (c :: cs) = closing (c :: seen) cs := by
  rw [closing.eq_def]
  simp [hb, hq]

theorem closing_eq_some_iff {seen : List Char} :
    closing seen cs = some (lexeme, rest) ↔
      ∃ inner, IsQuotable inner ∧ cs = inner ++ '"' :: rest ∧
        lexeme = seen.reverse ++ (inner ++ ['"']) := by
  constructor
  · intro h
    fun_induction closing seen cs with
    | case1 => cases h
    | case2 seen cs =>
      cases h
      exact ⟨[], .nil, rfl, by simp⟩
    | case3 => cases h
    | case4 => cases h
    | case5 seen c cs hc _ ih =>
      obtain ⟨inner, hi, rfl, rfl⟩ := ih h
      exact ⟨'\\' :: c :: inner, .escaped hc hi, rfl, by simp⟩
    | case6 seen c cs hq hb ih =>
      obtain ⟨inner, hi, rfl, rfl⟩ := ih h
      exact ⟨c :: inner, .plain hb hq hi, rfl, by simp⟩
  · rintro ⟨inner, hi, rfl, rfl⟩
    induction hi generalizing seen with
    | nil => simp [closing_quote]
    | escaped hc _ ih => simp [closing_escaped seen hc, ih]
    | plain hb hq _ ih => simp [closing_plain seen hb hq, ih]

theorem string?_eq_some_iff :
    string? cs = some (lexeme, rest) ↔ cs = lexeme ++ rest ∧ IsString lexeme := by
  constructor
  · intro h
    obtain ⟨hcs, -⟩ := string?_splits h
    refine ⟨hcs, ?_⟩
    unfold string? at h
    split at h
    · obtain ⟨inner, hi, -, rfl⟩ := closing_eq_some_iff.1 h
      exact ⟨inner, rfl, hi⟩
    · cases h
  · rintro ⟨rfl, inner, rfl, hi⟩
    rw [List.cons_append, string?, closing_eq_some_iff]
    exact ⟨inner, hi, by simp, rfl⟩

theorem identifier?_eq_some_iff :
    identifier? cs = some (lexeme, rest) ↔
      cs = lexeme ++ rest ∧ lexeme ≠ [] ∧ (∀ c ∈ lexeme, isPlain c = true) ∧ Stops isPlain rest := by
  constructor
  · intro h
    obtain ⟨hcs, hne⟩ := identifier?_splits h
    simp only [identifier?] at h
    split at h
    · cases h
    · cases h
      exact ⟨hcs, hne, fun _ => List.mem_takeWhile_imp, stops_dropWhile _ _⟩
  · rintro ⟨rfl, hne, hp, hr⟩
    simp only [identifier?, takeWhile_append_of_stops hp hr, dropWhile_append_of_stops hp hr,
      if_neg hne]

theorem literal?_eq_some_iff :
    literal? cs = some (lexeme, rest) ↔
      ∃ c, (c = '(' ∨ c = ')' ∨ c = '+' ∨ c = '-') ∧ lexeme = [c] ∧ cs = c :: rest := by
  constructor
  · intro h
    unfold literal? at h
    split at h
    · cases h
    · split at h
      · rename_i hc
        cases h
        exact ⟨_, hc, rfl, rfl⟩
      · cases h
  · rintro ⟨c, hc, rfl, rfl⟩
    exact if_pos hc

/-- The sign alone is an identifier, so the rule for literals never comes to it. -/
theorem literal?_eq_some_iff_of_identifier? (h : identifier? cs = none) :
    literal? cs = some (lexeme, rest) ↔ cs = lexeme ++ rest ∧ (lexeme = ['('] ∨ lexeme = [')']) := by
  have not_plain : ∀ {c : Char}, isPlain c = true → cs ≠ c :: rest := by
    rintro c hc rfl
    simp [identifier?, hc] at h
  rw [literal?_eq_some_iff]
  constructor
  · rintro ⟨c, rfl | rfl | rfl | rfl, rfl, hcs⟩
    · exact ⟨hcs, Or.inl rfl⟩
    · exact ⟨hcs, Or.inr rfl⟩
    · exact absurd hcs (not_plain (by decide))
    · exact absurd hcs (not_plain (by decide))
  · rintro ⟨hcs, rfl | rfl⟩
    · exact ⟨'(', by simp, rfl, hcs⟩
    · exact ⟨')', by simp, rfl, hcs⟩

/-! ### Which rule fits first -/

theorem IsInteger.append_digits {more : List Char} (h : IsInteger lexeme)
    (hd : ∀ c ∈ more, c.isDigit = true) : IsInteger (lexeme ++ more) := by
  obtain ⟨s, digits, rfl, hs, hne, hds⟩ := h
  refine ⟨s, digits ++ more, List.append_assoc _ _ _, hs, by simp [hne], fun c hc => ?_⟩
  rcases List.mem_append.1 hc with hc | hc
  · exact hds c hc
  · exact hd c hc

theorem IsReal.append_digits {more : List Char} (h : IsReal lexeme)
    (hd : ∀ c ∈ more, c.isDigit = true) : IsReal (lexeme ++ more) := by
  obtain ⟨s, whole, fraction, rfl, hs, hw, hne, hf⟩ := h
  refine ⟨s, whole, fraction ++ more, by simp, hs, hw, by simp [hne], fun c hc => ?_⟩
  rcases List.mem_append.1 hc with hc | hc
  · exact hf c hc
  · exact hd c hc

/-- A text that begins with an integer has a longest one. -/
theorem isSome_integer?_of_startsWith (h : IsInteger lexeme) (hp : lexeme <+: cs) :
    (integer? cs).isSome = true := by
  obtain ⟨next, rfl⟩ := hp
  have hd : ∀ c ∈ next.takeWhile Char.isDigit, c.isDigit = true := fun _ => List.mem_takeWhile_imp
  have hi : integer? (lexeme ++ next) =
      some (lexeme ++ next.takeWhile Char.isDigit, next.dropWhile Char.isDigit) := by
    refine integer?_eq_some_iff.2 ⟨?_, h.append_digits hd, stops_dropWhile _ _⟩
    rw [List.append_assoc, List.takeWhile_append_dropWhile]
  rw [hi]
  rfl

/-- A text that begins with a real number has a longest one. -/
theorem isSome_real?_of_startsWith (h : IsReal lexeme) (hp : lexeme <+: cs) :
    (real? cs).isSome = true := by
  obtain ⟨next, rfl⟩ := hp
  have hd : ∀ c ∈ next.takeWhile Char.isDigit, c.isDigit = true := fun _ => List.mem_takeWhile_imp
  have hi : real? (lexeme ++ next) =
      some (lexeme ++ next.takeWhile Char.isDigit, next.dropWhile Char.isDigit) := by
    refine real?_eq_some_iff.2 ⟨?_, h.append_digits hd, stops_dropWhile _ _⟩
    rw [List.append_assoc, List.takeWhile_append_dropWhile]
  rw [hi]
  rfl

/-- Before an integer there is a real number just where a point and a digit follow it. -/
theorem real?_append_of_isInteger (h : IsInteger lexeme) (hd : Stops Char.isDigit rest) :
    real? (lexeme ++ rest) = none ↔
      ∀ digit rest', rest = '.' :: digit :: rest' → digit.isDigit = false := by
  constructor
  · rintro hn digit rest' rfl
    refine Bool.eq_false_iff.2 fun hdigit => ?_
    obtain ⟨s, digits, rfl, hs, -, hds⟩ := h
    have hr : IsReal (s ++ (digits ++ '.' :: [digit])) :=
      ⟨s, digits, [digit], rfl, hs, hds, by simp, by simpa using hdigit⟩
    have hp : s ++ (digits ++ '.' :: [digit]) <+: s ++ digits ++ '.' :: digit :: rest' :=
      ⟨rest', by simp⟩
    have := isSome_real?_of_startsWith hr hp
    rw [hn] at this
    cases this
  · intro hp
    obtain ⟨s, digits, rfl, hs, hne, hds⟩ := h
    have hc := stops_isSignChar_of_isDigit hne hds rest
    simp only [real?, List.append_assoc, unsigned_append hs hc, dropWhile_append_of_stops hds hd]
    split
    · rename_i cs'
      have hz : cs'.takeWhile Char.isDigit = [] := by
        cases cs' with
        | nil => rfl
        | cons digit rest' => simp [hp digit rest' rfl]
      rw [if_pos hz]
    · rfl

/-- A rule for numbers fits just where a number begins. -/
theorem startsNumber_iff :
    StartsNumber cs ↔ (real? cs).isSome = true ∨ (integer? cs).isSome = true := by
  constructor
  · rintro ⟨s, digit, hs, hd, hp | hp⟩
    · exact Or.inr (isSome_integer?_of_startsWith ⟨s, [digit], rfl, hs, by simp, by simpa using hd⟩ hp)
    · exact Or.inl (isSome_real?_of_startsWith
        ⟨s, [], [digit], rfl, hs, by simp, by simp, by simpa using hd⟩ hp)
  · rintro (h | h)
    · obtain ⟨⟨lexeme, rest⟩, h⟩ := Option.isSome_iff_exists.1 h
      obtain ⟨rfl, ⟨s, whole, fraction, rfl, hs, hw, hne, hf⟩, -⟩ := real?_eq_some_iff.1 h
      rcases whole with _ | ⟨digit, whole⟩
      · obtain ⟨digit, fraction, rfl⟩ := List.exists_cons_of_ne_nil hne
        exact ⟨s, digit, hs, hf digit List.mem_cons_self, Or.inr ⟨fraction ++ rest, by simp⟩⟩
      · exact ⟨s, digit, hs, hw digit List.mem_cons_self,
          Or.inl ⟨whole ++ '.' :: fraction ++ rest, by simp⟩⟩
    · obtain ⟨⟨lexeme, rest⟩, h⟩ := Option.isSome_iff_exists.1 h
      obtain ⟨rfl, ⟨s, digits, rfl, hs, hne, hd⟩, -⟩ := integer?_eq_some_iff.1 h
      obtain ⟨digit, digits, rfl⟩ := List.exists_cons_of_ne_nil hne
      exact ⟨s, digit, hs, hd digit List.mem_cons_self, Or.inl ⟨digits ++ rest, by simp⟩⟩

theorem isBlank_of_isDigit {c : Char} (h : c.isDigit = true) : isBlank c = false := by
  simp only [Char.isDigit, Bool.and_eq_true, decide_eq_true_eq, ge_iff_le, UInt32.le_iff_toNat_le]
    at h
  refine Bool.eq_false_iff.2 fun hb => ?_
  obtain ⟨range, hm, hl, hu⟩ := (CharSet.contains_iff blanks c).1 hb
  have hc : 48 ≤ c.toNat ∧ c.toNat ≤ 57 := h
  simp only [blanks, List.mem_cons, List.not_mem_nil, or_false] at hm
  rcases hm with rfl | rfl | rfl | rfl | rfl | rfl | rfl | rfl | rfl | rfl <;> simp at hl hu <;> omega

theorem isPlain_of_isDigit {c : Char} (h : c.isDigit = true) : isPlain c = true := by
  have hne : ∀ d : Char, d.isDigit = false → c ≠ d := by
    rintro d hd rfl
    rw [h] at hd
    cases hd
  simp [isPlain, isBlank_of_isDigit h, hne '"' rfl, hne '(' rfl, hne ')' rfl]

theorem IsSign.isPlain {s : List Char} (h : IsSign s) : ∀ c ∈ s, Token.isPlain c = true := by
  rcases h with rfl | rfl | rfl
  · simp
  · simpa using (by decide : Token.isPlain '+' = true)
  · simpa using (by decide : Token.isPlain '-' = true)

theorem IsInteger.isPlain (h : IsInteger lexeme) : ∀ c ∈ lexeme, Token.isPlain c = true := by
  obtain ⟨s, digits, rfl, hs, -, hd⟩ := h
  exact List.forall_mem_append.2 ⟨hs.isPlain, fun c hc => isPlain_of_isDigit (hd c hc)⟩

theorem IsReal.isPlain (h : IsReal lexeme) : ∀ c ∈ lexeme, Token.isPlain c = true := by
  obtain ⟨s, whole, fraction, rfl, hs, hw, -, hf⟩ := h
  have hfraction : ∀ c ∈ '.' :: fraction, Token.isPlain c = true :=
    List.forall_mem_cons.2 ⟨by decide, fun c hc => isPlain_of_isDigit (hf c hc)⟩
  have hwhole : ∀ c ∈ whole, Token.isPlain c = true := fun c hc => isPlain_of_isDigit (hw c hc)
  exact List.forall_mem_append.2 ⟨hs.isPlain, List.forall_mem_append.2 ⟨hwhole, hfraction⟩⟩

/-- Whether a number begins is settled within the plain characters. -/
theorem startsNumber_append_iff (hl : ∀ c ∈ lexeme, isPlain c = true) (hr : Stops isPlain rest) :
    StartsNumber (lexeme ++ rest) ↔ StartsNumber lexeme := by
  have within : ∀ run, (∀ c ∈ run, isPlain c = true) → run <+: lexeme ++ rest → run <+: lexeme := by
    intro run hp hrun
    simpa only [takeWhile_append_of_stops hl hr] using prefix_takeWhile hp hrun
  constructor
  · rintro ⟨s, digit, hs, hd, hp⟩
    have hdigit := isPlain_of_isDigit hd
    refine ⟨s, digit, hs, hd, hp.imp (within _ ?_) (within _ ?_)⟩
    · simpa [or_imp, forall_and, hdigit] using hs.isPlain
    · have hpoint : isPlain '.' = true := by decide
      simpa [or_imp, forall_and, hdigit, hpoint] using hs.isPlain
  · rintro ⟨s, digit, hs, hd, hp⟩
    exact ⟨s, digit, hs, hd, hp.imp (·.trans (List.prefix_append _ _))
      (·.trans (List.prefix_append _ _))⟩

/-! ### Lexemes -/

/-- The first rule that fits is the rule of the category that it gives. -/
theorem lexeme?_eq_some_mk_iff {category : Category} :
    lexeme? cs = some (⟨category, String.ofList lexeme⟩, rest) ↔
      category = .real ∧ real? cs = some (lexeme, rest) ∨
      real? cs = none ∧ (category = .integer ∧ integer? cs = some (lexeme, rest) ∨
      integer? cs = none ∧ (category = .string ∧ string? cs = some (lexeme, rest) ∨
      string? cs = none ∧ (category = .identifier ∧ identifier? cs = some (lexeme, rest) ∨
      identifier? cs = none ∧ category = .literal ∧ literal? cs = some (lexeme, rest)))) := by
  have found : ∀ (c : Category) (p : List Char × List Char),
      some ((⟨c, String.ofList p.1⟩ : Token), p.2) =
          some (⟨category, String.ofList lexeme⟩, rest) ↔
        category = c ∧ some p = some (lexeme, rest) := by
    intro c p
    simp only [Option.some.injEq, Prod.ext_iff, Token.mk.injEq, String.ofList_inj, eq_comm (a := c)]
    exact and_assoc
  simp only [lexeme?, rules, List.findSome?]
  cases real? cs with
  | some p => simpa using found .real p
  | none =>
  cases integer? cs with
  | some p => simpa using found .integer p
  | none =>
  cases string? cs with
  | some p => simpa using found .string p
  | none =>
  cases identifier? cs with
  | some p => simpa using found .identifier p
  | none =>
  cases literal? cs with
  | some p => simpa using found .literal p
  | none => simp

theorem not_startsNumber_of_stops (h : Stops isPlain cs) : ¬ StartsNumber cs := by
  rw [← List.nil_append cs, startsNumber_append_iff (fun _ hc => absurd hc List.not_mem_nil) h]
  rintro ⟨s, digit, -, -, hp | hp⟩ <;> simp at hp

theorem numbers?_eq_none_of_not_startsNumber (h : ¬ StartsNumber cs) :
    real? cs = none ∧ integer? cs = none := by
  rw [startsNumber_iff, not_or, Bool.not_eq_true, Bool.not_eq_true] at h
  simpa using h

theorem string?_eq_none_of_isPlain {c : Char} (h : isPlain c = true) (cs : List Char) :
    string? (c :: cs) = none := by
  refine Option.eq_none_iff_forall_ne_some.2 fun ⟨lexeme, rest⟩ hs => ?_
  obtain ⟨hcs, inner, rfl, -⟩ := string?_eq_some_iff.1 hs
  cases hcs
  exact absurd h (by decide)

/-- The first rule that fits gives the token that fits where it stands. -/
theorem lexeme?_eq_some_iff_fits {category : Category} :
    lexeme? cs = some (⟨category, String.ofList lexeme⟩, rest) ↔
      cs = lexeme ++ rest ∧ Fits category lexeme rest := by
  rw [lexeme?_eq_some_mk_iff]
  constructor
  · rintro (⟨rfl, h⟩ | ⟨hr, ⟨rfl, h⟩ | ⟨hi, ⟨rfl, h⟩ | ⟨-, ⟨rfl, h⟩ | ⟨hx, rfl, h⟩⟩⟩⟩)
    · obtain ⟨rfl, hl, hd⟩ := real?_eq_some_iff.1 h
      exact ⟨rfl, .real hl hd⟩
    · obtain ⟨rfl, hl, hd⟩ := integer?_eq_some_iff.1 h
      exact ⟨rfl, .integer hl hd ((real?_append_of_isInteger hl hd).1 hr)⟩
    · obtain ⟨rfl, hl⟩ := string?_eq_some_iff.1 h
      exact ⟨rfl, .string hl⟩
    · obtain ⟨rfl, hne, hp, hs⟩ := identifier?_eq_some_iff.1 h
      refine ⟨rfl, .identifier ⟨hne, hp, ?_⟩ hs⟩
      rw [← startsNumber_append_iff hp hs, startsNumber_iff, hr, hi]
      simp
    · obtain ⟨rfl, hl⟩ := (literal?_eq_some_iff_of_identifier? hx).1 h
      exact ⟨rfl, .literal hl⟩
  · rintro ⟨rfl, h⟩
    cases h with
    | real h hd => exact Or.inl ⟨rfl, real?_eq_some_iff.2 ⟨rfl, h, hd⟩⟩
    | integer h hd hp =>
      exact Or.inr ⟨(real?_append_of_isInteger h hd).2 hp,
        Or.inl ⟨rfl, integer?_eq_some_iff.2 ⟨rfl, h, hd⟩⟩⟩
    | string h =>
      obtain ⟨hr, hi⟩ : real? (lexeme ++ rest) = none ∧ integer? (lexeme ++ rest) = none := by
        refine numbers?_eq_none_of_not_startsNumber (not_startsNumber_of_stops ?_)
        obtain ⟨inner, rfl, -⟩ := h
        intro c hc
        cases hc
        decide
      exact Or.inr ⟨hr, Or.inr ⟨hi, Or.inl ⟨rfl, string?_eq_some_iff.2 ⟨rfl, h⟩⟩⟩⟩
    | identifier h hn =>
      obtain ⟨hne, hp, hx⟩ := h
      obtain ⟨hr, hi⟩ := numbers?_eq_none_of_not_startsNumber
        (mt (startsNumber_append_iff hp hn).1 hx)
      have hs : string? (lexeme ++ rest) = none := by
        obtain ⟨c, lexeme, rfl⟩ := List.exists_cons_of_ne_nil hne
        exact string?_eq_none_of_isPlain (hp c List.mem_cons_self) _
      exact Or.inr ⟨hr, Or.inr ⟨hi, Or.inr ⟨hs,
        Or.inl ⟨rfl, identifier?_eq_some_iff.2 ⟨rfl, hne, hp, hn⟩⟩⟩⟩⟩
    | literal h =>
      have hs : Stops isPlain (lexeme ++ rest) := by
        rcases h with rfl | rfl <;> · intro c hc; cases hc; decide
      obtain ⟨hr, hi⟩ := numbers?_eq_none_of_not_startsNumber (not_startsNumber_of_stops hs)
      have hx : identifier? (lexeme ++ rest) = none := by
        rcases h with rfl | rfl <;> rfl
      have hq : string? (lexeme ++ rest) = none := by
        rcases h with rfl | rfl <;> rfl
      exact Or.inr ⟨hr, Or.inr ⟨hi, Or.inr ⟨hq, Or.inr ⟨hx,
        rfl, (literal?_eq_some_iff_of_identifier? hx).2 ⟨rfl, h⟩⟩⟩⟩⟩

theorem lexeme?_eq_some_iff {token : Token} :
    lexeme? cs = some (token, rest) ↔
      cs = token.text.toList ++ rest ∧ Fits token.category token.text.toList rest := by
  rw [← lexeme?_eq_some_iff_fits, String.ofList_toList]

end Rules

theorem isBlank_of_isPlain {c : Char} (h : isPlain c = true) : isBlank c = false := by
  simp only [isPlain, Bool.and_eq_true, Bool.not_eq_true'] at h
  exact h.1.1.1

theorem StartsNumber.exists_cons {cs : List Char} (h : StartsNumber cs) :
    ∃ c rest, cs = c :: rest ∧ isBlank c = false := by
  cases cs with
  | nil => exact absurd h (not_startsNumber_of_stops fun c hc => nomatch hc)
  | cons c rest =>
    refine ⟨c, rest, rfl, ?_⟩
    by_cases hc : isPlain c = true
    · exact isBlank_of_isPlain hc
    · refine absurd h (not_startsNumber_of_stops fun d hd => ?_)
      cases hd
      exact Bool.eq_false_iff.2 hc

/-- A token that fits begins with a character that is no blank. -/
theorem Fits.exists_cons {category : Category} {lexeme next : List Char}
    (h : Fits category lexeme next) : ∃ c rest, lexeme = c :: rest ∧ isBlank c = false := by
  cases h with
  | real h =>
    exact (startsNumber_iff.2 (Or.inl (isSome_real?_of_startsWith h (List.prefix_refl _)))).exists_cons
  | integer h =>
    exact (startsNumber_iff.2
      (Or.inr (isSome_integer?_of_startsWith h (List.prefix_refl _)))).exists_cons
  | string h =>
    obtain ⟨inner, rfl, -⟩ := h
    exact ⟨'"', _, rfl, by decide⟩
  | identifier h =>
    obtain ⟨c, rest, rfl⟩ := List.exists_cons_of_ne_nil h.1
    exact ⟨c, rest, rfl, isBlank_of_isPlain (h.2.1 c List.mem_cons_self)⟩
  | literal h =>
    rcases h with rfl | rfl
    · exact ⟨'(', [], rfl, by decide⟩
    · exact ⟨')', [], rfl, by decide⟩

end Token

end SexprReader
