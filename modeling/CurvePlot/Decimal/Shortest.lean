import CurvePlot.Binary64
import CurvePlot.Decimal.Basic

/-!
# The fewest digits that read back

The real numbers that round to a given double form an interval around it, from halfway to
the double below to halfway to the double above; the two ends belong to it when the
significand is even. `Decimal.shortest` looks for the coarsest power of ten with a multiple
in that interval. A power of ten has such a multiple exactly when one of the two multiples
next to the double is in the interval, so only those two are tried. If both are in the
interval the nearer one is taken, and `Tie` says what happens when they are equally near.

`Decimal.ofFloat` reads the result back before it is used, with and without its power of ten.
Should that fail, the double's exact decimal expansion takes its place.
-/

namespace CurvePlot

/-- Which of two equally near decimals is taken. -/
inductive Tie where
  /-- The one with the even last digit. -/
  | even
  /-- The larger one. -/
  | up
deriving Repr, DecidableEq

namespace Binary64.Magnitude

/-- The factor of the double when it is compared with multiples of `10 ^ grid`. -/
def scale (m : Magnitude) (grid : Int) : Nat :=
  Nat.pow 2 m.exponent.toNat * Nat.pow 10 (-grid).toNat

/-- The factor of a multiple of `10 ^ grid` when it is compared with the double:
`count * 10 ^ grid` is the magnitude exactly when `count * unit = mantissa * scale`. -/
def unit (m : Magnitude) (grid : Int) : Nat :=
  Nat.pow 2 (-m.exponent).toNat * Nat.pow 10 grid.toNat

/-- Whether `count * 10 ^ grid` is among the reals that round to the double. -/
def admits (m : Magnitude) (grid : Int) (count : Nat) : Bool :=
  let low := (4 * m.mantissa - (if m.narrowBelow then 1 else 2)) * m.scale grid
  let high := (4 * m.mantissa + 2) * m.scale grid
  let here := 4 * count * m.unit grid
  if m.mantissa % 2 = 0 then
    decide (low ≤ here ∧ here ≤ high)
  else
    decide (low < here ∧ here < high)

/-- Of two neighbouring counts around the double, the nearer one. -/
def nearer (m : Magnitude) (tie : Tie) (grid : Int) (below : Nat) : Nat :=
  let twice := 2 * m.mantissa * m.scale grid
  let middle := (2 * below + 1) * m.unit grid
  if twice < middle then
    below
  else if middle < twice then
    below + 1
  else
    match tie with
    | .up => below + 1
    | .even => below + below % 2

/-- The multiple of `10 ^ grid` that stands for the double, if one is admitted. -/
def onGrid? (m : Magnitude) (tie : Tie) (grid : Int) : Option Nat :=
  let below := m.mantissa * m.scale grid / m.unit grid
  match m.admits grid below, m.admits grid (below + 1) with
  | true, true => some (m.nearer tie grid below)
  | true, false => some below
  | false, true => some (below + 1)
  | false, false => none

/-- The number of places that are enough for the exact value of any double, since all doubles
are multiples of `2 ^ -1074`. -/
def places : Nat := 1074

/-- The exact value of the magnitude as a decimal. -/
def expansion (m : Magnitude) : Decimal :=
  ⟨m.mantissa * Nat.pow 2 (m.exponent + places).toNat * Nat.pow 5 places, -places⟩

/-- The first grid, going from `10 ^ grid` to ever finer ones, that admits a multiple. -/
def search (m : Magnitude) (tie : Tie) : Nat → Int → Decimal
  | 0, _ => m.expansion
  | grids + 1, grid =>
    match m.onGrid? tie grid with
    | some count => ⟨count, grid⟩
    | none => m.search tie grids (grid - 1)

/-- A power of ten above the magnitude, and at most a thousandfold of it. -/
def coarsestGrid (m : Magnitude) : Int :=
  ((m.mantissa.log2 : Int) + m.exponent) * 30103 / 100000 + 2

/-- The decimal with the **fewest digits** that rounds to the magnitude. -/
def shortest (m : Magnitude) (tie : Tie) : Decimal :=
  if m.mantissa = 0 then ⟨0, 0⟩ else m.search tie 24 m.coarsestGrid

end Binary64.Magnitude

/-- The decimal that stands for the absolute value of a finite double. -/
def Decimal.ofFloat (tie : Tie) (v : Float) : Decimal :=
  let m := Binary64.magnitude v
  let d := m.shortest tie
  if d.toFloat = v.abs ∧ d.spelledOut.toFloat = v.abs then d else m.expansion

end CurvePlot
