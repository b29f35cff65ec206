import SexprReader.Fault
import SexprReader.Text.Blank
import SexprReader.Text.Digit

/-!
# Integers from loose values

`Value.toInteger` turns a loose value into an integer: a flag counts as zero or one, a double loses
what follows the point, and a text is read by `integerOfText`.  A text may spell an integer in the
digits of any script, with a sign in front, with white space around, and with single underscores
between digits.  It may have `SettingsFault.digitLimit` digits at most, and that is looked at
before what follows them.
-/

namespace SexprReader

namespace Value

/-- A character of a text that spells an integer, as its ASCII equivalent: digits of any script
become ASCII digits, and white space above ASCII becomes a space.  Other characters above ASCII
have none. -/
def plainChar? (c : Char) : Option Char :=
  if c.toNat < 0x7F then some c
  else if isBlank c then some ' '
  else (digitValue? c).map Nat.digitChar

/-- The white space of ASCII, to which the four information separators do not belong. -/
def isSpace (c : Char) : Bool := c = ' ' || (0x09 ≤ c.toNat && c.toNat ≤ 0x0D)

/-- A run of digits with single underscores between them, as it is read: the value and the number
of its digits so far. -/
structure DigitRun where
  value : Nat
  count : Nat

/-- Reads digits after an underscore or at the start (`needsDigit`) or after a digit.  Gives the run
and what follows it, and nothing if an underscore has no digit on each side. -/
def digitRun (needsDigit : Bool) (run : DigitRun) : List Char → Option (DigitRun × List Char)
  | [] => if needsDigit && run.count != 0 then none else some (run, [])
  | c :: cs =>
    if c.isDigit then
      digitRun false ⟨run.value * 10 + (c.toNat - '0'.toNat), run.count + 1⟩ cs
    else if c = '_' then if needsDigit then none else digitRun true run cs
    else if needsDigit && run.count != 0 then none else some (run, c :: cs)

/-- The integer that a text spells. -/
def integerOfText (text : String) : Except SettingsFault Int :=
  let plain := text.toList.map fun c => (plainChar? c).getD '?'
  let signed := plain.dropWhile isSpace
  let negative := signed.head? = some '-'
  let unsigned := if negative || signed.head? = some '+' then signed.drop 1 else signed
  match digitRun true ⟨0, 0⟩ unsigned with
  | none => .error (.notInteger text)
  | some (run, rest) =>
    if SettingsFault.digitLimit < run.count then .error (.tooManyDigits run.count)
    else if run.count = 0 || !rest.all isSpace then .error (.notInteger text)
    else .ok (if negative then -(run.value : Int) else run.value)

/-- The integer that a value stands for. -/
def toInteger : Value → Except SettingsFault Int
  | bool b => .ok (if b then 1 else 0)
  | int n => .ok n
  | real x =>
    match x.truncate? with
    | some n => .ok n
    | none => .error (if x = .nan then .notANumber else .infinite)
  | text s => integerOfText s
  | value => .error (.noInteger value)

end Value

end SexprReader
