import CurvePlot.Curve

/-!
# Where a curve is sampled

A range is divided into equal **intervals**, and the curve is evaluated at both ends of each.
There are at least as many intervals as were asked for, and at least so many to a unit of
`x`, but never more than a fixed cap. The **grid** is the left end, the step and the number of
intervals; its `i`-th position is computed from these afresh, not from the position before.
-/

namespace CurvePlot

/-- How densely ranges are sampled. -/
structure Sampler where
  /-- The least number of intervals to a unit of `x`. A NaN, zero or a negative number asks
  for none. -/
  samplesPerUnit : Float
  /-- The greatest number of intervals; zero counts as one. -/
  maxPoints : UInt64

/-- A sample of a curve. -/
structure Point where
  x : Float
  y : Float
deriving DecidableEq

/-- Evenly spaced positions. -/
structure Grid where
  start : Float
  step : Float
  intervals : UInt64

/-- Why a curve was not sampled. -/
inductive SamplingError where
  /-- The range is unbounded, not a number, or too wide for its width to be a double. -/
  | invalidRange (lo hi : Float)
  /-- The run was stopped. -/
  | cancelled
  /-- The text is not a formula. -/
  | notAFormula (cause : ParseError)
deriving DecidableEq

/-- How the refusal of a range is worded. -/
def invalidRangeMessage (lo hi : Float) : String :=
  s!"Invalid range: minX = {String.ofList (Number.text lo)}, " ++
    s!"maxX = {String.ofList (Number.text hi)}"

/-- The wording of a sampling error. -/
def SamplingError.message : SamplingError → String
  | invalidRange lo hi => invalidRangeMessage lo hi
  | cancelled => "sampling was cancelled"
  | notAFormula cause => cause.message

namespace Sampler

/-- Twenty intervals to a unit, and at most two thousand. -/
def standard : Sampler where
  samplesPerUnit := 20.0
  maxPoints := 2000

/-- The greatest number of intervals. -/
def cap (s : Sampler) : UInt64 :=
  max s.maxPoints 1

/-- The **number of intervals** for a range: what was asked for and what the density asks
for, whichever is more, up to the cap. An empty or inverted range asks for no density. -/
def intervals (s : Sampler) (lo hi : Float) (requested : UInt64) : UInt64 :=
  min (max (max requested 1) (Binary64.ceilCount ((hi - lo) * s.samplesPerUnit))) s.cap

/-- The grid for a range, if its width is finite. -/
def grid? (s : Sampler) (lo hi : Float) (requested : UInt64) : Option Grid :=
  if (hi - lo).isFinite then
    let n := s.intervals lo hi requested
    some ⟨lo, (hi - lo) / n.toFloat, n⟩
  else
    none

/-- Whether the cap decided the number of intervals, and not what was asked for. -/
def isClamped (s : Sampler) (intervals requested : UInt64) : Bool :=
  intervals = s.cap && max requested 1 ≠ intervals

end Sampler

namespace Grid

/-- How many positions a grid has. -/
def size (g : Grid) : Nat :=
  g.intervals.toNat + 1

/-- The `i`-th position. -/
def position (g : Grid) (i : Nat) : Float :=
  g.start + (UInt64.ofNat i).toFloat * g.step

/-- The point of a curve at a position, if the curve has a finite value there, and the
scratch stack afterwards. -/
def sample (g : Grid) (c : Curve) (i : Nat) (scratch : List Float) :
    Option Point × List Float :=
  let x := g.position i
  let (y, after) := c.evalOn x scratch
  (if y.isFinite then some ⟨x, y⟩ else none, after)

end Grid

end CurvePlot
