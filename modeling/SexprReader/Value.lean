import SexprReader.Decimal.Double

/-!
# Loose values

Settings may arrive as loose values: data that name their own kind.  `isTruthy` reads any value as
a flag, and `kindName` names its kind in fault messages.
-/

namespace SexprReader

/-- A value that names its own kind; the fields of an object are in their order of arrival. -/
inductive Value where
  | null
  | bool (b : Bool)
  | int (n : Int)
  | real (x : Double)
  | text (s : String)
  | list (items : List Value)
  | object (fields : List (String × Value))

namespace Value

/-- What is empty, zero, absent or false counts as false, and all else as true. -/
def isTruthy : Value → Bool
  | null => false
  | bool b => b
  | int n => n != 0
  | real x => x.isNonzero
  | text s => s != ""
  | list items => !items.isEmpty
  | object fields => !fields.isEmpty

/-- The name of a value's kind in fault messages. -/
def kindName : Value → String
  | null => "NoneType"
  | bool _ => "bool"
  | int _ => "int"
  | real _ => "float"
  | text _ => "str"
  | list _ => "list"
  | object _ => "dict"

/-- The value of the field called `key`, if there is one. -/
def field? (fields : List (String × Value)) (key : String) : Option Value :=
  fields.lookup key

end Value

end SexprReader
