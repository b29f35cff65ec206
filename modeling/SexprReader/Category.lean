/-!
# Categories

Every node carries one of ten categories.  Five are *lexical* (`Category.isLexical`): scanning a
text produces them.  Five are *grammatical*: reading a sequence of nodes produces them.  An
`Atom` may stand over four of the lexical ones (`Category.isAtomic`).  `name` spells a category,
and `ofName?` reads the spelling back.
-/

namespace SexprReader

/-- What kind of thing a node is. -/
inductive Category where
  | real
  | identifier
  | integer
  | string
  | literal
  | program
  | sexpr
  | list
  | seq
  | atom
deriving DecidableEq

namespace Category

/-- The ten categories, the lexical ones first. -/
def all : List Category :=
  [real, identifier, integer, string, literal, program, sexpr, list, seq, atom]

/-- The spelling of a category in every listing. -/
def name : Category → String
  | real => "Real"
  | identifier => "Identifier"
  | integer => "Integer"
  | string => "String"
  | literal => "Literal"
  | program => "Program"
  | sexpr => "SExpr"
  | list => "List"
  | seq => "Seq"
  | atom => "Atom"

/-- The category spelled `text`, if there is one. -/
def ofName? (text : String) : Option Category :=
  all.find? fun category => category.name == text

/-- Scanning produces the lexical categories. -/
def isLexical : Category → Bool
  | real | identifier | integer | string | literal => true
  | program | sexpr | list | seq | atom => false

/-- An atom stands over a lexical category other than `literal`. -/
def isAtomic : Category → Bool
  | real | identifier | integer | string => true
  | literal | program | sexpr | list | seq | atom => false

theorem ofName?_name (category : Category) : ofName? category.name = some category := by
  cases category <;> rfl

theorem name_injective {a b : Category} (h : a.name = b.name) : a = b := by
  simpa [ofName?_name] using congrArg ofName? h

theorem isAtomic_iff (category : Category) :
    category.isAtomic = true ↔ category.isLexical = true ∧ category ≠ literal := by
  cases category <;> decide

end Category

end SexprReader
