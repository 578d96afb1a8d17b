/-!
# Decimals

A `Decimal` is a natural number of units of a power of ten. Every number written in this
library is first brought into this form, and every number read passes through it, so the
texts of numbers are a matter of layout alone.
-/

namespace CurvePlot

/-- The number `digits * 10 ^ exponent`. -/
structure Decimal where
  /-- The digits of the number, read as a natural number. -/
  digits : Nat
  /-- The power of ten that the last digit counts. -/
  exponent : Int
deriving Repr, DecidableEq

namespace Decimal

/-- The double nearest to a decimal, ties going to the even significand. A decimal beyond
the largest double becomes an infinity. -/
def toFloat (d : Decimal) : Float :=
  Float.ofScientific d.digits (d.exponent < 0) d.exponent.natAbs

/-- The same number without a positive power of ten, as it is when all digits down to the units
are written out. -/
def spelledOut (d : Decimal) : Decimal :=
  if 0 ≤ d.exponent then ⟨d.digits * Nat.pow 10 d.exponent.toNat, 0⟩ else d

/-- The value of a list of decimal digits, most significant first. -/
def ofDigits (digits : List Char) : Nat :=
  digits.foldl (fun value c => 10 * value + (c.toNat - '0'.toNat)) 0

/-- The decimal digits of a natural number, most significant first. -/
def digitsOf (n : Nat) : List Char :=
  Nat.toDigits 10 n

end Decimal

end CurvePlot
