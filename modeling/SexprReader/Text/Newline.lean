/-!
# Line ends

A text from outside may end its lines with a line feed, a carriage return or the pair of both.
`unifyNewlines` leaves a single line feed for each.
-/

namespace SexprReader

/-- Puts `text` behind `done` (which holds its last character first), each line end as `\n`. -/
def unifyFrom (done : List Char) : List Char → List Char
  | [] => done.reverse
  | '\r' :: '\n' :: text => unifyFrom ('\n' :: done) text
  | c :: text => unifyFrom ((if c = '\r' then '\n' else c) :: done) text

/-- Every line end of the text becomes a single line feed. -/
def unifyNewlines (text : String) : String := String.ofList (unifyFrom [] text.toList)

end SexprReader
