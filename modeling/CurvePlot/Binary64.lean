/-!
# Doubles, seen through their bits

A finite double is a sign and a **magnitude** `mantissa * 2 ^ exponent`. The decimal texts
of a number and the count of samples a range asks for are computed from the magnitude in
exact arithmetic, so neither depends on how an intermediate result would be rounded.
-/

namespace CurvePlot.Binary64

/-- Whether the sign bit of a double is set. It is set for `-0` too. -/
def signBit (v : Float) : Bool :=
  v.toBits >>> 63 == 1

/-- The absolute value `mantissa * 2 ^ exponent` of a finite double. -/
structure Magnitude where
  /-- The significand as a natural number, below `2 ^ 53`. -/
  mantissa : Nat
  /-- The power of two that the significand is scaled by. -/
  exponent : Int
  /-- Whether the next double below is only half as far away as the next one above, as it
  is at a power of two. -/
  narrowBelow : Bool
deriving Repr, DecidableEq

/-- The **magnitude** of a finite double. An infinity or a NaN has none; callers test for
those first. -/
def magnitude (v : Float) : Magnitude :=
  let biased := ((v.toBits >>> 52) &&& 0x7FF).toNat
  let fraction := (v.toBits &&& 0xFFFFFFFFFFFFF).toNat
  if biased = 0 then
    ⟨fraction, -1074, false⟩
  else
    ⟨Nat.pow 2 52 + fraction, (biased : Int) - 1075, fraction = 0 && 1 < biased⟩

/-- The least natural number that is not below the magnitude. -/
def Magnitude.ceil (m : Magnitude) : Nat :=
  if 0 ≤ m.exponent then
    m.mantissa * Nat.pow 2 m.exponent.toNat
  else
    let unit := Nat.pow 2 (-m.exponent).toNat
    (m.mantissa + (unit - 1)) / unit

/-- The largest count. -/
def maxCount : UInt64 :=
  0xFFFFFFFFFFFFFFFF

/-- The **ceiling of a double as a count**: nothing for a NaN or a number that is not
positive, and the largest count for whatever does not fit. -/
def ceilCount (v : Float) : UInt64 :=
  if 0.0 < v then
    if v.isFinite then UInt64.ofNatClamp (magnitude v).ceil else maxCount
  else
    0

end CurvePlot.Binary64
