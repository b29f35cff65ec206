import SexprReader.Text.CharSet

/-!
# Blanks

The white space of Unicode, with the four information separators (U+001C to U+001F) counted in.
`isBlank` holds of exactly these 29 characters.
-/

namespace SexprReader

/-- The white space characters of Unicode and the information separators. -/
def blanks : CharSet :=
  [(0x0009, 0x000D), (0x001C, 0x0020), (0x0085, 0x0085), (0x00A0, 0x00A0), (0x1680, 0x1680),
   (0x2000, 0x200A), (0x2028, 0x2029), (0x202F, 0x202F), (0x205F, 0x205F), (0x3000, 0x3000)]

/-- The character separates tokens and belongs to none. -/
def isBlank (c : Char) : Bool := blanks.contains c

end SexprReader
