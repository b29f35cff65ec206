import SexprReader.Proofs.Lexeme
import SexprReader.Proofs.Lossless
import SexprReader.Proofs.Runs

/-!
# The tokens that scanning gives

Scanning gives three kinds of tokens: those that are read as atoms, `(` and `)`.  No token of the
first kind has the text `)`, so none of them ends a sequence (`isScannable_of_scan`).  For readers it
matters only which of the three kinds the next token has.
-/

namespace SexprReader

namespace Token

/-- The literal `(`. -/
def openParen : Token := ⟨.literal, "("⟩

/-- The literal `)`. -/
def closeParen : Token := ⟨.literal, ")"⟩

/-- The token is read as an atom, and it does not end a sequence. -/
def IsAtom (token : Token) : Prop := token.category.isAtomic = true ∧ token.text ≠ ")"

/-- The token is of one of the three kinds that scanning gives. -/
def IsScannable (token : Token) : Prop := token.IsAtom ∨ token = openParen ∨ token = closeParen

theorem IsScannable.isAtom {token : Token} (h : token.IsScannable)
    (ha : token.category.isAtomic = true) : token.IsAtom := by
  rcases h with h | rfl | rfl
  · exact h
  · cases ha
  · cases ha

/-! ### Lexemes -/

/-- The rule gives no lexeme that is a single `)`. -/
def SparesClose (rule : Rule) : Prop :=
  ∀ {cs lexeme rest}, rule cs = some (lexeme, rest) → lexeme ≠ [')']

theorem ne_close_of_isPlain {lexeme : List Char} (h : ∀ c ∈ lexeme, isPlain c = true) :
    lexeme ≠ [')'] := by
  rintro rfl
  exact absurd (h ')' List.mem_cons_self) (by decide)

theorem real?_sparesClose : SparesClose real? :=
  fun h => ne_close_of_isPlain (real?_eq_some_iff.1 h).2.1.isPlain

theorem integer?_sparesClose : SparesClose integer? :=
  fun h => ne_close_of_isPlain (integer?_eq_some_iff.1 h).2.1.isPlain

theorem string?_sparesClose : SparesClose string? := by
  intro cs lexeme rest h he
  obtain ⟨-, inner, hl, -⟩ := string?_eq_some_iff.1 h
  rw [he] at hl
  cases hl

theorem identifier?_sparesClose : SparesClose identifier? :=
  fun h => ne_close_of_isPlain (identifier?_eq_some_iff.1 h).2.2.1

theorem sparesClose_of_mem_rules {category : Category} {rule : Rule}
    (h : (category, rule) ∈ rules) (hc : category ≠ .literal) :
    category.isAtomic = true ∧ SparesClose rule := by
  simp only [rules, List.mem_cons, List.not_mem_nil, or_false, Prod.mk.injEq] at h
  rcases h with ⟨rfl, rfl⟩ | ⟨rfl, rfl⟩ | ⟨rfl, rfl⟩ | ⟨rfl, rfl⟩ | ⟨rfl, rfl⟩
  · exact ⟨rfl, real?_sparesClose⟩
  · exact ⟨rfl, integer?_sparesClose⟩
  · exact ⟨rfl, string?_sparesClose⟩
  · exact ⟨rfl, identifier?_sparesClose⟩
  · exact absurd rfl hc

theorem isScannable_of_lexeme? {cs rest : List Char} {token : Token}
    (h : lexeme? cs = some (token, rest)) : token.IsScannable := by
  obtain ⟨-, hfits⟩ := lexeme?_eq_some_iff.1 h
  obtain ⟨⟨category, rule⟩, hm, hr⟩ := List.exists_of_findSome?_eq_some h
  obtain ⟨⟨lexeme, rest'⟩, hl, he⟩ := Option.map_eq_some_iff.1 hr
  cases he
  by_cases hc : category = .literal
  · subst hc
    rw [String.toList_ofList] at hfits
    cases hfits with
    | literal hp => exact Or.inr (hp.imp (fun h => by rw [h]; rfl) fun h => by rw [h]; rfl)
  · obtain ⟨ha, hs⟩ := sparesClose_of_mem_rules hm hc
    refine Or.inl ⟨ha, fun ht => hs hl ?_⟩
    have hx := congrArg String.toList ht
    rwa [String.toList_ofList] at hx

/-! ### Scanning -/

theorem isScannable_of_scanFrom {found tokens : List Token} {cs : List Char}
    (h : scanFrom found cs = .ok tokens) (hf : ∀ token ∈ found, token.IsScannable) :
    ∀ token ∈ tokens, token.IsScannable := by
  fun_induction scanFrom found cs with
  | case1 found =>
    cases h
    intro token ht
    exact hf token (List.mem_reverse.1 ht)
  | case2 found c rest hb ih => exact ih h hf
  | case3 => cases h
  | case4 found c cs hb token rest hl ih =>
    refine ih h fun token' ht => ?_
    rcases List.mem_cons.1 ht with rfl | ht
    · exact isScannable_of_lexeme? hl
    · exact hf token' ht

theorem isScannable_of_scan {text : String} {tokens : List Token} (h : scan text = .ok tokens) :
    ∀ token ∈ tokens, token.IsScannable :=
  isScannable_of_scanFrom h fun _ ht => absurd ht List.not_mem_nil

/-! ### As next nodes -/

theorem IsAtom.isLiteral {token : Token} (h : token.IsAtom) (text : String) :
    (Node.leaf token).isLiteral text = false := by
  have hc : token.category ≠ .literal := ((Category.isAtomic_iff _).1 h.1).2
  simp [Node.isLiteral, Node.category, hc]

theorem IsAtom.endsSeq {token : Token} (h : token.IsAtom) :
    (Node.leaf token).endsSeq = false := by
  have hc : token.category ≠ .literal := ((Category.isAtomic_iff _).1 h.1).2
  simp [Node.endsSeq, Node.category, Node.text, hc, h.2]

end Token

namespace Node

/-- All leaves are tokens of the three kinds. -/
def HasScannableLeaves (node : Node) : Prop := ∀ token ∈ node.leaves, token.IsScannable

theorem HasScannableLeaves.child {category : Category} {children : List Node} {child : Node}
    (h : (tree category children).HasScannableLeaves) (hc : child ∈ children) :
    child.HasScannableLeaves := by
  intro token ht
  refine h token ?_
  rw [leaves_tree, leavesAll_eq_flatMap]
  exact List.mem_flatMap.2 ⟨child, hc, ht⟩

end Node

namespace Cursor

/-- What is left to read are tokens. -/
def IsTokens (cursor : Cursor) : Prop := ∀ node ∈ cursor.rest, ∃ token : Token, node = .leaf token

theorem isTokens_map_leaf (tokens : List Token) (depth : Nat) :
    IsTokens ⟨tokens.map .leaf, depth⟩ := by
  intro node hn
  obtain ⟨token, -, rfl⟩ := List.mem_map.1 hn
  exact ⟨token, rfl⟩

theorem IsTokens.of_cons {node : Node} {rest : List Node} {depth : Nat}
    (h : IsTokens ⟨node :: rest, depth⟩) (depth' : Nat) : IsTokens ⟨rest, depth'⟩ :=
  fun _ hn => h _ (List.mem_cons_of_mem _ hn)

/-- Readers leave tokens behind, if there were tokens before. -/
theorem IsTokens.of_takes {α : Type} {reader : Reader α} {post : List Node → α → Prop}
    (ht : Reader.Takes reader post) {cursor later : Cursor} {a : α} (h : cursor.IsTokens)
    (hr : reader cursor = .ok a later) : later.IsTokens := by
  obtain ⟨taken, he, -, -⟩ := ht hr
  exact fun node hn => h node (he ▸ List.mem_append_right _ hn)

/-- What is left to read are tokens of the three kinds. -/
def IsScannable (cursor : Cursor) : Prop :=
  ∀ node ∈ cursor.rest, ∃ token : Token, token.IsScannable ∧ node = .leaf token

theorem isScannable_map_leaf {tokens : List Token} (h : ∀ token ∈ tokens, token.IsScannable)
    (depth : Nat) : IsScannable ⟨tokens.map .leaf, depth⟩ := by
  intro node hn
  obtain ⟨token, ht, rfl⟩ := List.mem_map.1 hn
  exact ⟨token, h token ht, rfl⟩

theorem IsScannable.of_cons {node : Node} {rest : List Node} {depth : Nat}
    (h : IsScannable ⟨node :: rest, depth⟩) (depth' : Nat) : IsScannable ⟨rest, depth'⟩ :=
  fun _ hn => h _ (List.mem_cons_of_mem _ hn)

/-- The next node is a token of one of the three kinds. -/
theorem IsScannable.head {node : Node} {rest : List Node} {depth : Nat}
    (h : IsScannable ⟨node :: rest, depth⟩) :
    (∃ token : Token, token.IsAtom ∧ node = .leaf token) ∨ node = .leaf .openParen ∨
      node = .leaf .closeParen := by
  obtain ⟨token, ha | rfl | rfl, rfl⟩ := h node List.mem_cons_self
  · exact Or.inl ⟨token, ha, rfl⟩
  · exact Or.inr (Or.inl rfl)
  · exact Or.inr (Or.inr rfl)

/-- Readers leave tokens of the three kinds behind, if there were such tokens before. -/
theorem IsScannable.of_takes {α : Type} {reader : Reader α} {post : List Node → α → Prop}
    (ht : Reader.Takes reader post) {cursor later : Cursor} {a : α} (h : cursor.IsScannable)
    (hr : reader cursor = .ok a later) : later.IsScannable := by
  obtain ⟨taken, he, -, -⟩ := ht hr
  exact fun node hn => h node (he ▸ List.mem_append_right _ hn)

end Cursor

end SexprReader
