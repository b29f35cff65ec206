/-!
# Paths

A `Path` is a root and the names to follow from there.  Reading a path drops empty names (from
doubled and trailing slashes) and the name `.`, but keeps `..`.  Exactly two leading slashes are a
root of their own; one, or more than two, are the common root.  A relative path without a name is
shown as `.`.
-/

namespace SexprReader

/-- A root (empty for a relative path) and the names to follow from it. -/
structure Path where
  root : String
  names : List String
deriving DecidableEq

namespace Path

/-- The runs of characters between the slashes of a text. -/
def pieces : List Char → List (List Char)
  | [] => [[]]
  | c :: cs =>
    if c = '/' then [] :: pieces cs
    else match pieces cs with
      | [] => [[c]]
      | piece :: rest => (c :: piece) :: rest

/-- The root that a number of leading slashes stands for. -/
def rootOf : Nat → String
  | 0 => ""
  | 2 => "//"
  | _ => "/"

/-- The path that a text stands for. -/
def ofText (text : String) : Path where
  root := rootOf (text.toList.takeWhile (· = '/')).length
  names := ((pieces text.toList).map String.ofList).filter fun name => name ≠ "" ∧ name ≠ "."

/-- The text of a path, one slash between two names. -/
def toText (path : Path) : String :=
  if path.root = "" ∧ path.names = [] then "."
  else path.root ++ "/".intercalate path.names

end Path

end SexprReader
