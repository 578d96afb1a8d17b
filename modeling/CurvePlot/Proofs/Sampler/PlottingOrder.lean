import CurvePlot.Proofs.Binary64.Order
import CurvePlot.Proofs.Sampler.Finiteness

/-!
# Points come in plotting order

A position is computed afresh from its index, not from the position before, so that positions are in
order is no matter of course. It follows from rounding being monotone, as the positions of a grid are
known to be if its step has the right sign (`Grid.Divides.position_mono`). The step has the sign of
the width, and the width that of the bounds (`Grid.Divides.zero_le_step`, `Grid.Divides.step_le_zero`).
Leaving points out does not change their order, and all ways to sample a range give the same points.
-/

namespace CurvePlot

open Binary64

namespace Binary64

variable {v : Float} {x : ℝ}

/-- What is not negative stays so when it is rounded. -/
theorem IsRounded.zero_le_toReal (h : IsRounded v x) (finite : v.isFinite = true) (hx : 0 ≤ x) :
    0 ≤ toReal v := by
  rw [← EReal.coe_le_coe_iff, coe_toReal finite, h.toEReal, EReal.coe_zero, ← nearest_zero]
  exact nearest_mono hx

/-- What is not positive stays so when it is rounded. -/
theorem IsRounded.toReal_le_zero (h : IsRounded v x) (finite : v.isFinite = true) (hx : x ≤ 0) :
    toReal v ≤ 0 := by
  rw [← EReal.coe_le_coe_iff, coe_toReal finite, h.toEReal, EReal.coe_zero, ← nearest_zero]
  exact nearest_mono hx

/-- The order of finite doubles is that of their values. -/
theorem toReal_le_of_le {a b : Float} (ha : a.isFinite = true) (hb : b.isFinite = true)
    (h : a ≤ b) : toReal a ≤ toReal b := by
  rw [toReal_le_iff ha hb]
  exact (le_iff (isNaN_of_isFinite ha) (isNaN_of_isFinite hb)).mp h

end Binary64

/-! ### Positions -/

namespace Grid

variable {g : Grid} {lo hi : Float}

namespace Divides

variable (h : g.Divides lo hi)
include h

/-- From a lower to a higher bound the **step is not negative**. -/
theorem zero_le_step (hle : lo ≤ hi) : 0 ≤ toReal g.step := by
  obtain ⟨hhi, hlo⟩ := isFinite_of_isFinite_sub h.width
  have hbounds : toReal lo ≤ toReal hi := toReal_le_of_le hlo hhi hle
  have hwidth : 0 ≤ toReal (hi - lo) :=
    (isRounded_sub hhi hlo).zero_le_toReal h.width (sub_nonneg.mpr hbounds)
  have hcount : 0 ≤ toReal g.intervals.toFloat := zero_le_one.trans h.one_le_toReal_intervals
  exact h.isRounded_step.zero_le_toReal h.isFinite_step (div_nonneg hwidth hcount)

/-- From a higher to a lower bound the **step is not positive**. -/
theorem step_le_zero (hle : hi ≤ lo) : toReal g.step ≤ 0 := by
  obtain ⟨hhi, hlo⟩ := isFinite_of_isFinite_sub h.width
  have hbounds : toReal hi ≤ toReal lo := toReal_le_of_le hhi hlo hle
  have hwidth : toReal (hi - lo) ≤ 0 :=
    (isRounded_sub hhi hlo).toReal_le_zero h.width (sub_nonpos.mpr hbounds)
  have hcount : 0 ≤ toReal g.intervals.toFloat := zero_le_one.trans h.one_le_toReal_intervals
  exact h.isRounded_step.toReal_le_zero h.isFinite_step (div_nonpos_of_nonpos_of_nonneg hwidth hcount)

theorem position_le_position (hle : lo ≤ hi) {i j : ℕ} (hij : i ≤ j)
    (hj : j ≤ g.intervals.toNat) : g.position i ≤ g.position j := by
  rw [le_iff (h.isNaN_position i) (h.isNaN_position j)]
  exact h.position_mono (h.zero_le_step hle) hij hj

theorem position_ge_position (hle : hi ≤ lo) {i j : ℕ} (hij : i ≤ j)
    (hj : j ≤ g.intervals.toNat) : g.position j ≤ g.position i := by
  rw [le_iff (h.isNaN_position j) (h.isNaN_position i)]
  exact h.position_anti (h.step_le_zero hle) hij hj

end Divides

/-- The samples of a grid are in any order that its positions are in. -/
theorem pairwise_samplesFrom {r : Float → Float → Prop}
    (positions : ∀ i j, i ≤ j → j ≤ g.intervals.toNat → r (g.position i) (g.position j))
    (t : Expr) : (g.samplesFrom t 0 g.size).Pairwise fun p q => r p.x q.x := by
  rw [samplesFrom, List.pairwise_map, ← List.range_eq_range', size]
  refine List.pairwise_lt_range.imp_of_mem fun {i j} _ hj hij => positions i j hij.le ?_
  exact Nat.le_of_lt_succ (List.mem_range.mp hj)

end Grid

/-! ### Points -/

namespace Sampler

variable {s : Sampler} {c : Curve} {lo hi : Float} {requested : UInt64} {points : List Point}

/-- Points that are emitted are in any order that the positions of the grid are in. -/
theorem Emits.pairwise (h : s.Emits c lo hi requested points) {r : Float → Float → Prop}
    (positions : ∀ g : Grid, g.Divides lo hi →
      ∀ i j, i ≤ j → j ≤ g.intervals.toNat → r (g.position i) (g.position j)) :
    points.Pairwise fun p q => r p.x q.x := by
  obtain ⟨g, hg, rfl⟩ := h.exists_grid
  have divides : g.Divides lo hi := Grid.divides_of_grid? hg
  exact (Grid.pairwise_samplesFrom (positions g divides) c.tree).filter _

/-- **Points come in plotting order.** Over a range of finite width every way to sample a curve gives
points, and all of them the same: a plain run, a run in any consecutive chunks, and a run that might
have been stopped and was not. The `x` of the points never decrease if the range goes up, and never
increase if it goes down. -/
theorem points_in_plotting_order (s : Sampler) (c : Curve) (requested : UInt64)
    (width : (hi - lo).isFinite = true) :
    ∃ points, (s.sample c lo hi requested).value = .ok points ∧
      (s.sampleSplit c lo hi requested).value = .ok points ∧
      (∀ split : ℕ → List Grid.Chunk,
        Grid.IsSplit (split ((s.intervals lo hi requested).toNat + 1))
          ((s.intervals lo hi requested).toNat + 1) →
        (s.sampleChunks split c lo hi requested).value = .ok points) ∧
      (∀ points', s.Emits c lo hi requested points' → points' = points) ∧
      (lo ≤ hi → points.Pairwise fun p q => p.x ≤ q.x) ∧
      (hi ≤ lo → points.Pairwise fun p q => q.x ≤ p.x) := by
  obtain ⟨g, -, hvalue, -⟩ := s.sample_of_isFinite c requested width
  have emits := Emits.whole hvalue
  refine ⟨_, hvalue, ?_, fun split covers => ?_, fun points' h => ?_, fun hle => ?_, fun hle => ?_⟩
  · rw [s.sampleSplit_eq_sample, hvalue]
  · rw [s.sampleChunks_eq_sample c lo hi requested covers, hvalue]
  · obtain ⟨g', hg', rfl⟩ := h.exists_grid
    obtain ⟨g'', hg'', same⟩ := emits.exists_grid
    rw [same, Option.some.inj (hg'.symm.trans hg'')]
  · exact emits.pairwise fun g divides i j => divides.position_le_position hle
  · exact emits.pairwise (r := fun v w => w ≤ v) fun g divides i j =>
      divides.position_ge_position hle

/-- An inverted range: the points of `x` from 1 down to 0. -/
theorem points_in_plotting_order_inverted :
    ∃ c points, Curve.ofSource "x" = .ok c ∧
      (standard.sampleSplit c 1 0 3).value = .ok points ∧
      points.Pairwise fun p q => q.x ≤ p.x := by
  have parsed : Expr.parse "x" = .ok .var := by decide +kernel
  have width : (0 - 1 : Float).isFinite = true := by decide +kernel
  have inverted : (0 : Float) ≤ 1 := by decide +kernel
  obtain ⟨c, hc, -⟩ := Curve.exists_ofSource parsed
  obtain ⟨points, -, split, -, -, -, descending⟩ := points_in_plotting_order standard c 3 width
  exact ⟨c, points, hc, split, descending inverted⟩

end Sampler

end CurvePlot
