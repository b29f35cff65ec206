/-!
# Doubles

A `Double` is the exact content of a number in the 64 bit binary format: a mantissa below `2 ^ 53`
times a power of two, an infinity, or no number.  `truncate?` drops the places after the point, and
`isBelow` compares with a natural number without rounding.
-/

namespace SexprReader

/-- The exact content of a 64 bit binary number; `finite` means `± mantissa * 2 ^ exponent`. -/
inductive Double where
  | nan
  | infinite (negative : Bool)
  | finite (negative : Bool) (mantissa : Nat) (exponent : Int)
deriving DecidableEq

namespace Double

/-- The numerator of `base ^ e`; the denominator is `power base (-e)`. -/
def power (base : Nat) (e : Int) : Nat := Nat.pow base e.toNat

/-- The number differs from zero; both zeros, and nothing else, do not. -/
def isNonzero : Double → Bool
  | finite _ mantissa _ => mantissa != 0
  | _ => true

/-- The integer part of a finite double, toward zero. -/
def truncate? : Double → Option Int
  | finite negative mantissa exponent =>
    let size : Int := (mantissa * power 2 exponent / power 2 (-exponent) : Nat)
    some (if negative then -size else size)
  | _ => none

/-- The double is less than the natural number, compared exactly. -/
def isBelow (x : Double) (n : Nat) : Bool :=
  match x with
  | nan => false
  | infinite negative => negative
  | finite true mantissa _ => mantissa != 0 || n != 0
  | finite false mantissa exponent => mantissa * power 2 exponent < n * power 2 (-exponent)

end Double

end SexprReader
