import SexprReader.Fault
import SexprReader.Node
import SexprReader.Text.Blank

/-!
# Scanning

`Token.scan` splits a text into tokens.  Blanks are skipped.  Elsewhere the rules for real numbers,
integers, strings, identifiers and literals are tried in this order, and the first that fits
wins with the longest match it has, even where a later rule would reach further (`lexeme?`).  A rule
splits a text into its match and what follows (`Splits`), so a token is never empty and scanning
ends.
-/

namespace SexprReader

namespace Token

/-- A rule splits a text into a lexeme and what follows, or does not fit. -/
abbrev Rule := List Char → Option (List Char × List Char)

/-- Where the rule fits, its lexeme is not empty, and nothing of the text is lost. -/
def Splits (rule : Rule) : Prop :=
  ∀ {cs lexeme rest}, rule cs = some (lexeme, rest) → cs = lexeme ++ rest ∧ lexeme ≠ []

/-! ### The rules -/

/-- The plus or minus in front of a text, or nothing. -/
def sign : List Char → List Char
  | [] => []
  | c :: _ => if c = '+' ∨ c = '-' then [c] else []

/-- What follows the sign. -/
def unsigned : List Char → List Char
  | [] => []
  | c :: cs => if c = '+' ∨ c = '-' then cs else c :: cs

theorem sign_append_unsigned (cs : List Char) : sign cs ++ unsigned cs = cs := by
  cases cs with
  | nil => rfl
  | cons c cs => by_cases h : c = '+' ∨ c = '-' <;> simp [sign, unsigned, h]

/-- An optional sign and digits, at least one of them. -/
def integer? : Rule := fun cs =>
  let digits := (unsigned cs).takeWhile Char.isDigit
  if digits = [] then none else some (sign cs ++ digits, (unsigned cs).dropWhile Char.isDigit)

/-- An optional sign, digits, a point, and digits, at least one of them after the point. -/
def real? : Rule := fun cs =>
  let whole := (unsigned cs).takeWhile Char.isDigit
  match (unsigned cs).dropWhile Char.isDigit with
  | '.' :: cs' =>
    let fraction := cs'.takeWhile Char.isDigit
    if fraction = [] then none
    else some (sign cs ++ whole ++ '.' :: fraction, cs'.dropWhile Char.isDigit)
  | _ => none

/-- The end of a string whose opening quote and next characters are `seen`, the last one first.  A
backslash takes the next character with it, which must not be a line feed. -/
def closing (seen : List Char) : Rule
  | [] => none
  | c :: cs =>
    if c = '"' then some ((c :: seen).reverse, cs)
    else if c = '\\' then
      match cs with
      | [] => none
      | d :: cs => if d = '\n' then none else closing (d :: c :: seen) cs
    else closing (c :: seen) cs

/-- A double quote and all up to the next one that no backslash precedes. -/
def string? : Rule
  | '"' :: cs => closing ['"'] cs
  | _ => none

/-- Blanks, quotes and parentheses end an identifier. -/
def isPlain (c : Char) : Bool := !isBlank c && c != '"' && c != '(' && c != ')'

/-- Plain characters, at least one. -/
def identifier? : Rule := fun cs =>
  let plain := cs.takeWhile isPlain
  if plain = [] then none else some (plain, cs.dropWhile isPlain)

/-- A single parenthesis, plus or minus. -/
def literal? : Rule
  | [] => none
  | c :: cs => if c = '(' ∨ c = ')' ∨ c = '+' ∨ c = '-' then some ([c], cs) else none

theorem integer?_splits : Splits integer? := by
  intro cs lexeme rest h
  simp only [integer?] at h
  split at h
  · cases h
  · rename_i hd
    cases h
    refine ⟨?_, by simp [hd]⟩
    rw [List.append_assoc, List.takeWhile_append_dropWhile, sign_append_unsigned]

theorem real?_splits : Splits real? := by
  intro cs lexeme rest h
  simp only [real?] at h
  split at h
  · rename_i cs' hp
    split at h
    · cases h
    · cases h
      refine ⟨?_, by simp⟩
      rw [List.append_assoc, List.cons_append, List.takeWhile_append_dropWhile, ← hp,
        List.append_assoc, List.takeWhile_append_dropWhile, sign_append_unsigned]
  · cases h

theorem closing_splits {seen cs lexeme rest : List Char}
    (h : closing seen cs = some (lexeme, rest)) :
    seen.reverse ++ cs = lexeme ++ rest ∧ lexeme ≠ [] := by
  fun_induction closing seen cs with
  | case1 => cases h
  | case2 => cases h; simp
  | case3 => cases h
  | case4 => cases h
  | case5 seen d cs _ _ ih => simpa using ih h
  | case6 seen c cs _ _ ih => simpa using ih h

theorem string?_splits : Splits string? := by
  intro cs lexeme rest h
  unfold string? at h
  split at h
  · simpa using closing_splits h
  · cases h

theorem identifier?_splits : Splits identifier? := by
  intro cs lexeme rest h
  simp only [identifier?] at h
  split at h
  · cases h
  · rename_i hp
    cases h
    exact ⟨List.takeWhile_append_dropWhile.symm, hp⟩

theorem literal?_splits : Splits literal? := by
  intro cs lexeme rest h
  unfold literal? at h
  split at h
  · cases h
  · split at h
    · cases h; simp
    · cases h

/-! ### Tokens -/

/-- The rules in the order in which they are tried. -/
def rules : List (Category × Rule) :=
  [(.real, real?), (.integer, integer?), (.string, string?), (.identifier, identifier?),
   (.literal, literal?)]

theorem splits_of_mem_rules {entry : Category × Rule} (h : entry ∈ rules) : Splits entry.2 := by
  simp only [rules, List.mem_cons, List.not_mem_nil, or_false] at h
  rcases h with rfl | rfl | rfl | rfl | rfl
  · exact real?_splits
  · exact integer?_splits
  · exact string?_splits
  · exact identifier?_splits
  · exact literal?_splits

/-- The token at the start of a text, and what follows it, by the first rule that fits. -/
def lexeme? (cs : List Char) : Option (Token × List Char) :=
  rules.findSome? fun (category, rule) =>
    (rule cs).map fun (lexeme, rest) => (⟨category, String.ofList lexeme⟩, rest)

theorem lexeme?_splits {cs rest : List Char} {token : Token}
    (h : lexeme? cs = some (token, rest)) :
    cs = token.text.toList ++ rest ∧ token.text.toList ≠ [] := by
  obtain ⟨⟨category, rule⟩, hm, hr⟩ := List.exists_of_findSome?_eq_some h
  obtain ⟨⟨lexeme, rest'⟩, hl, he⟩ := Option.map_eq_some_iff.1 hr
  cases he
  simpa using splits_of_mem_rules hm hl

theorem length_lt_of_lexeme? {cs rest : List Char} {token : Token}
    (h : lexeme? cs = some (token, rest)) : rest.length < cs.length := by
  obtain ⟨rfl, ht⟩ := lexeme?_splits h
  simpa [List.length_pos_iff] using ht

/-- Scans `cs` behind the tokens `found`, which holds the last one first. -/
def scanFrom (found : List Token) (cs : List Char) : Except ScanFault (List Token) :=
  match cs with
  | [] => .ok found.reverse
  | c :: rest =>
    if isBlank c then scanFrom found rest
    else
      match _h : lexeme? (c :: rest) with
      | none => .error .noToken
      | some (token, rest) => scanFrom (token :: found) rest
termination_by cs.length
decreasing_by
  · simp
  · exact length_lt_of_lexeme? _h

theorem scanFrom_nil (found : List Token) : scanFrom found [] = .ok found.reverse := by
  rw [scanFrom]

theorem scanFrom_of_isBlank (found : List Token) {c : Char} (cs : List Char)
    (h : isBlank c = true) : scanFrom found (c :: cs) = scanFrom found cs := by
  rw [scanFrom, if_pos h]

theorem scanFrom_of_lexeme?_eq_some (found : List Token) {c : Char} {cs rest : List Char}
    {token : Token} (h : isBlank c = false) (hl : lexeme? (c :: cs) = some (token, rest)) :
    scanFrom found (c :: cs) = scanFrom (token :: found) rest := by
  rw [scanFrom, if_neg (by simp [h])]
  split <;> simp_all

theorem scanFrom_of_lexeme?_eq_none (found : List Token) {c : Char} {cs : List Char}
    (h : isBlank c = false) (hl : lexeme? (c :: cs) = none) :
    scanFrom found (c :: cs) = .error .noToken := by
  rw [scanFrom, if_neg (by simp [h])]
  split <;> simp_all

/-- The tokens of a text, from left to right. -/
def scan (text : String) : Except ScanFault (List Token) := scanFrom [] text.toList

end Token

end SexprReader
