/-!
# Columns

Listings are set in columns: a text is filled up with spaces to a width, counted in characters, and
a longer text is left as it is.
-/

namespace SexprReader

/-- The text, with spaces behind it up to the width. -/
def padRight (width : Nat) (text : String) : String :=
  text ++ String.ofList (List.replicate (width - text.length) ' ')

end SexprReader
