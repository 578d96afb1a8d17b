import CurvePlot.Decimal.Shortest

/-!
# Laying out a decimal

**Positional** layout writes every digit down to the units, and a point where there are
digits below them. **Scientific** layout puts the point after the first digit and states the
power of ten.

`Number.text` is the text of a double in messages, tables and printed formulas: always
positional, with no point in a whole number, and words for the values that are no numbers.
-/

namespace CurvePlot

namespace Decimal

/-- Positional layout, without a point when there is nothing behind it. -/
def positional (d : Decimal) : List Char :=
  let digits := digitsOf d.digits
  if 0 ≤ d.exponent then
    digits ++ List.replicate d.exponent.toNat '0'
  else
    let places := (-d.exponent).toNat
    if places < digits.length then
      digits.take (digits.length - places) ++ '.' :: digits.drop (digits.length - places)
    else
      '0' :: '.' :: (List.replicate (places - digits.length) '0' ++ digits)

/-- The power of ten of the first digit. -/
def leadingExponent (d : Decimal) : Int :=
  (digitsOf d.digits).length - 1 + d.exponent

/-- A whole number with its sign. -/
def signedDigits (n : Int) : List Char :=
  (if n < 0 then '-' else '+') :: digitsOf n.natAbs

/-- Scientific layout: the sign of the exponent is always written. -/
def scientific (d : Decimal) : List Char :=
  let significand :=
    match digitsOf d.digits with
    | first :: second :: rest => first :: '.' :: second :: rest
    | digits => digits
  significand ++ 'e' :: signedDigits d.leadingExponent

end Decimal

namespace Number

/-- The text of the absolute value of a double that is not a NaN. -/
def unsignedText (v : Float) : List Char :=
  if v.isFinite then (Decimal.ofFloat .up v).positional else ['i', 'n', 'f']

/-- The text of a double in messages, tables and printed formulas. -/
def text (v : Float) : List Char :=
  if v.isNaN then
    ['N', 'a', 'N']
  else if Binary64.signBit v then
    '-' :: unsignedText v
  else
    unsignedText v

end Number

end CurvePlot
