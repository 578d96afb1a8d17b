import CurvePlot.Decimal.Layout

/-!
# Numbers in JSON

**Writing.** A finite double is written with the fewest digits that read back: positionally,
and always with a fraction, if its first digit counts a power of ten from `-5` to `15`, and
scientifically otherwise. A NaN or an infinity is written `null`.

**Reading.** Whole numbers that fit 64 bits are kept exactly. Everything else becomes a
double in double arithmetic: digits are taken into a 64-bit significand as long as they fit,
and the significand is then scaled by a power of ten. For texts of up to fifteen digits with
a small exponent this is the nearest double; longer texts may miss it by a unit in the last
place. A number beyond the largest double is out of range.
-/

namespace CurvePlot.Json

/-! ### Writing -/

/-- A positional decimal with a fraction. -/
def withFraction (d : Decimal) : List Char :=
  if 0 ≤ d.exponent then d.positional ++ ['.', '0'] else d.positional

/-- The text of a finite double without its sign. -/
def magnitudeText (v : Float) : List Char :=
  let d := Decimal.ofFloat .even v
  if -5 ≤ d.leadingExponent ∧ d.leadingExponent ≤ 15 then withFraction d else d.scientific

/-- The **JSON text of a double**. -/
def numberText (v : Float) : List Char :=
  if v.isFinite then
    if Binary64.signBit v then '-' :: magnitudeText v else magnitudeText v
  else
    "null".toList

/-! ### Reading -/

/-- A number as it was read. -/
inductive Number where
  /-- A whole number that fits 64 bits, signed or unsigned. -/
  | whole (n : Int)
  | real (v : Float)
deriving DecidableEq

namespace Number

/-- The double of a number. -/
def toFloat : Number → Float
  | whole n =>
    if n < 0 then -(UInt64.ofNat n.natAbs).toFloat else (UInt64.ofNat n.natAbs).toFloat
  | real v => v

/-- The signed 64-bit integer that a number is, if it is one. -/
def toInt64? : Number → Option Int64
  | whole n =>
    if Int64.minValue.toInt ≤ n ∧ n ≤ Int64.maxValue.toInt then some (Int64.ofInt n) else none
  | real _ => none

end Number

/-- The parts of a number text. -/
structure Numeral where
  negative : Bool
  /-- The digits before the point. -/
  whole : List Char
  /-- The digits after the point, if there is one. -/
  fraction : Option (List Char)
  /-- The exponent, if there is one. -/
  exponent : Option Int
deriving DecidableEq

namespace Numeral

/-- Take digits into a significand as long as it stays below `2 ^ 64`. The result is the
significand and how many digits were taken. -/
def absorb (significand : Nat) : List Char → Nat × Nat
  | [] => (significand, 0)
  | c :: rest =>
    let next := 10 * significand + (c.toNat - '0'.toNat)
    if next < UInt64.size then
      let (final, taken) := absorb next rest
      (final, taken + 1)
    else
      (significand, 0)

/-- The double nearest to a power of ten. -/
def powerOfTen (n : Nat) : Float :=
  (Decimal.mk 1 n).toFloat

/-- The greatest power of ten that is a double. -/
def greatestPower : Nat := 308

/-- Divide by `10 ^ n`, in steps that are doubles. -/
def scaleDown (v : Float) (n : Nat) : Float :=
  if n ≤ greatestPower then
    v / powerOfTen n
  else if v == 0.0 then
    v
  else
    scaleDown (v / powerOfTen greatestPower) (n - greatestPower)
termination_by n
decreasing_by
  simp only [greatestPower] at *
  omega

/-- Multiply by `10 ^ n`, unless the result is out of range. -/
def scaleUp? (v : Float) (n : Nat) : Option Float :=
  if n ≤ greatestPower then
    let scaled := v * powerOfTen n
    if scaled.isFinite then some scaled else none
  else if v == 0.0 then
    some v
  else
    none

/-- The double `significand * 10 ^ exponent`, computed in double arithmetic. -/
def scale? (significand : Nat) (exponent : Int) : Option Float :=
  let v := (UInt64.ofNat significand).toFloat
  if 0 ≤ exponent then scaleUp? v exponent.toNat else some (scaleDown v (-exponent).toNat)

/-- The value of a whole number text. A negative zero and negative numbers below the signed
range are doubles. -/
def wholeValue (negative : Bool) (n : Nat) : Number :=
  if negative then
    if n = 0 ∨ Int64.maxValue.toInt + 1 < n then
      .real (-(UInt64.ofNat n).toFloat)
    else
      .whole (-n)
  else
    .whole n

/-- The **value of a number text**, unless it is out of range. -/
def value? (t : Numeral) : Option Number :=
  let (first, taken) := absorb 0 t.whole
  let dropped := t.whole.length - taken
  if dropped = 0 ∧ t.fraction = none ∧ t.exponent = none then
    some (wholeValue t.negative first)
  else
    let (significand, places) := absorb first (t.fraction.getD [])
    (scale? significand ((dropped : Int) - places + t.exponent.getD 0)).map fun v =>
      .real (if t.negative then -v else v)

end Numeral

end CurvePlot.Json
