import CurvePlot.Proofs.Binary64.Arithmetic
import CurvePlot.Sampler.Basic

/-!
# The positions of a grid

The positions of a grid are rounded three times each: the step is a rounded quotient, its multiple a
rounded product and the position a rounded sum. All three roundings are monotone, so the positions
never turn back on the way from one end of the range to the other (`Grid.Divides.position_mono`,
`Grid.Divides.position_anti`). They begin at a finite bound, so a position can only overflow if all
positions after it do, to the same infinity (`Grid.Divides.position_eq_of_not_isFinite`). Bounds of
at most `2 ^ 1021` leave so much room that none does (`Grid.Divides.isFinite_position`).
-/

namespace CurvePlot

open Binary64

/-! ### Numbers of intervals -/

theorem toNat_max (m n : UInt64) : (max m n).toNat = max m.toNat n.toNat := by
  change (if m ≤ n then n else m).toNat = _
  split_ifs with h <;> rw [UInt64.le_iff_toNat_le] at h <;> omega

theorem toNat_min (m n : UInt64) : (min m n).toNat = min m.toNat n.toNat := by
  change (if m ≤ n then m else n).toNat = _
  split_ifs with h <;> rw [UInt64.le_iff_toNat_le] at h <;> omega

namespace Sampler

variable (s : Sampler) (lo hi : Float) (requested : UInt64)

/-- The number of intervals in natural numbers: what was asked for and what the density asks for,
whichever is more, up to the cap. -/
theorem toNat_intervals_eq_min : (s.intervals lo hi requested).toNat =
    min (max (max requested.toNat 1) (ceilCount ((hi - lo) * s.samplesPerUnit)).toNat)
      (max s.maxPoints.toNat 1) := by
  rw [intervals, cap, toNat_min, toNat_max, toNat_max, toNat_max]
  rfl

/-- There is always an interval. -/
theorem one_le_intervals : 1 ≤ (s.intervals lo hi requested).toNat := by
  rw [toNat_intervals_eq_min]
  omega

end Sampler

namespace Grid

/-! ### Indices -/

theorem toReal_index_mono {g : Grid} {i j : ℕ} (hij : i ≤ j) (hj : j ≤ g.intervals.toNat) :
    toReal (UInt64.ofNat i).toFloat ≤ toReal (UInt64.ofNat j).toFloat := by
  have hlt : j < 2 ^ 64 := hj.trans_lt g.intervals.toNat_lt
  refine toReal_toFloat_mono ?_
  rwa [UInt64.toNat_ofNat_of_lt' (hij.trans_lt hlt), UInt64.toNat_ofNat_of_lt' hlt]

/-- The unit of the largest doubles, and a smaller one. -/
theorem two_zpow_eq_mul (k : ℕ) : (2 : ℝ) ^ (971 : ℤ) = 2 ^ k * 2 ^ (971 - k : ℤ) := by
  rw [← zpow_add_natCast, sub_add_cancel]

/-- The number of intervals lies between two powers of two. -/
theorem exists_two_pow_le {g : Grid} (hpos : 1 ≤ g.intervals.toNat) : ∃ k : ℕ, k < 64 ∧
    2 ^ k ≤ toReal g.intervals.toFloat ∧
    ∀ i ≤ g.intervals.toNat, |toReal (UInt64.ofNat i).toFloat| ≤ 2 ^ (k + 1) := by
  have hne : g.intervals.toNat ≠ 0 := Nat.ne_of_gt hpos
  have hk : g.intervals.toNat.log2 < 64 := (Nat.log2_lt hne).mpr g.intervals.toNat_lt
  refine ⟨g.intervals.toNat.log2, hk, ?_, fun i hi => ?_⟩
  · have hpow : (UInt64.ofNat (2 ^ g.intervals.toNat.log2)).toNat = 2 ^ g.intervals.toNat.log2 :=
      UInt64.toNat_ofNat_of_lt' (Nat.pow_lt_pow_right one_lt_two hk)
    rw [← toReal_toFloat_two_pow hpow]
    refine toReal_toFloat_mono ?_
    rw [hpow]
    exact Nat.log2_self_le hne
  · have hlt : i < 2 ^ (g.intervals.toNat.log2 + 1) := hi.trans_lt Nat.lt_log2_self
    have hround := isRounded_toFloat (UInt64.ofNat i)
    rw [UInt64.toNat_ofNat_of_lt' (hi.trans_lt g.intervals.toNat_lt)] at hround
    have hle : |(i : ℝ)| ≤ (1 : ℕ) * 2 ^ ((g.intervals.toNat.log2 + 1 : ℕ) : ℤ) := by
      rw [Nat.abs_cast, Nat.cast_one, one_mul, zpow_natCast]
      exact_mod_cast hlt.le
    have hbound := (abs_toReal_le hround (by decide) (by omega) (by omega) hle).2
    rwa [Nat.cast_one, one_mul, zpow_natCast] at hbound

/-! ### Positions -/

/-- The grid **divides** a range of finite width into equal intervals. -/
structure Divides (g : Grid) (lo hi : Float) : Prop where
  width : (hi - lo).isFinite = true
  start : g.start = lo
  step : g.step = (hi - lo) / g.intervals.toFloat
  one_le : 1 ≤ g.intervals.toNat

theorem divides_of_grid? {s : Sampler} {lo hi : Float} {requested : UInt64} {g : Grid}
    (h : s.grid? lo hi requested = some g) : g.Divides lo hi := by
  unfold Sampler.grid? at h
  split at h
  · rename_i width
    cases h
    exact ⟨width, rfl, rfl, s.one_le_intervals lo hi requested⟩
  · cases h

namespace Divides

variable {g : Grid} {lo hi : Float} (h : g.Divides lo hi)
include h

theorem isFinite_start : g.start.isFinite = true := by
  rw [h.start]
  exact (isFinite_of_isFinite_sub h.width).2

theorem one_le_toReal_intervals : 1 ≤ toReal g.intervals.toFloat := by
  have hone : toReal (1 : UInt64).toFloat = 2 ^ 0 := toReal_toFloat_two_pow rfl
  rw [← pow_zero (2 : ℝ), ← hone]
  exact toReal_toFloat_mono h.one_le

theorem isRounded_step : IsRounded g.step (toReal (hi - lo) / toReal g.intervals.toFloat) := by
  have hone := h.one_le_toReal_intervals
  rw [h.step]
  exact isRounded_div h.width (isFinite_toFloat _) (by linarith)

/-- The step is no longer than the range. -/
theorem isFinite_step : g.step.isFinite = true := by
  have hone := h.one_le_toReal_intervals
  obtain ⟨m, e, hm, he, he', hwidth⟩ := exists_abs_toReal_eq h.width
  refine (abs_toReal_le h.isRounded_step hm he he' ?_).1
  rw [← hwidth, abs_div, abs_of_pos (by linarith : 0 < toReal g.intervals.toFloat)]
  exact div_le_self (abs_nonneg _) hone

/-- The `i`-th multiple of the step. -/
theorem isRounded_multiple (i : ℕ) : IsRounded ((UInt64.ofNat i).toFloat * g.step)
    (toReal (UInt64.ofNat i).toFloat * toReal g.step) :=
  isRounded_mul (isFinite_toFloat _) h.isFinite_step

theorem isNaN_position (i : ℕ) : (g.position i).isNaN = false :=
  (isNearest_add_of_isFinite h.isFinite_start (h.isRounded_multiple i).isNaN).isNaN

/-- **Positions are monotone** if the step is not negative. -/
theorem position_mono (hstep : 0 ≤ toReal g.step) {i j : ℕ} (hij : i ≤ j)
    (hj : j ≤ g.intervals.toNat) : toEReal (g.position i) ≤ toEReal (g.position j) := by
  have hi := h.isRounded_multiple i
  have hj' := h.isRounded_multiple j
  refine toEReal_add_le_add h.isFinite_start hi.isNaN hj'.isNaN (toEReal_le_of_le hi hj' ?_)
  exact mul_le_mul_of_nonneg_right (toReal_index_mono hij hj) hstep

/-- **Positions are antitone** if the step is not positive. -/
theorem position_anti (hstep : toReal g.step ≤ 0) {i j : ℕ} (hij : i ≤ j)
    (hj : j ≤ g.intervals.toNat) : toEReal (g.position j) ≤ toEReal (g.position i) := by
  have hi := h.isRounded_multiple i
  have hj' := h.isRounded_multiple j
  refine toEReal_add_le_add h.isFinite_start hj'.isNaN hi.isNaN (toEReal_le_of_le hj' hi ?_)
  exact mul_le_mul_of_nonpos_right (toReal_index_mono hij hj) hstep

theorem toEReal_position_zero : toEReal (g.position 0) = toEReal g.start := by
  have hzero : toReal (UInt64.ofNat 0).toFloat = 0 := by
    have hvalue := (isRounded_toFloat (UInt64.ofNat 0)).toEReal
    rw [show (UInt64.ofNat 0).toNat = 0 from rfl, Nat.cast_zero, nearest_zero] at hvalue
    rw [toReal, hvalue, EReal.toReal_zero]
  have hmultiple := h.isRounded_multiple 0
  rw [hzero, zero_mul] at hmultiple
  obtain ⟨hfinite, hle⟩ := abs_toReal_le hmultiple (m := 0) (e := 0) (by decide) (by decide)
    (by decide) (by simp)
  rw [Nat.cast_zero, zero_mul, abs_nonpos_iff] at hle
  have hsum := isRounded_add h.isFinite_start hfinite
  rw [hle, add_zero] at hsum
  exact hsum.toEReal.trans (isRounded_toReal h.isFinite_start).toEReal.symm

/-- **An infinite position** is the position of all that come after it. -/
theorem position_eq_of_not_isFinite {i j : ℕ} (hij : i ≤ j) (hj : j ≤ g.intervals.toNat)
    (hi : (g.position i).isFinite = false) : g.position i = g.position j := by
  obtain ⟨-, hbot, htop⟩ := (isFinite_iff g.start).mp h.isFinite_start
  rw [← h.toEReal_position_zero] at hbot htop
  refine eq_of_toEReal_eq (h.isNaN_position i) (h.isNaN_position j) hi ?_
  -- the infinity is the one that the positions move towards
  rcases le_total 0 (toReal g.step) with hstep | hstep
  · have hzero := h.position_mono hstep (Nat.zero_le i) (hij.trans hj)
    have hmono := h.position_mono hstep hij hj
    obtain hi | hi := toEReal_of_not_isFinite (h.isNaN_position i) hi
    · rw [hi, le_bot_iff] at hzero
      exact absurd hzero hbot
    · rw [hi, top_le_iff] at hmono
      rw [hi, hmono]
  · have hzero := h.position_anti hstep (Nat.zero_le i) (hij.trans hj)
    have hanti := h.position_anti hstep hij hj
    obtain hi | hi := toEReal_of_not_isFinite (h.isNaN_position i) hi
    · rw [hi, le_bot_iff] at hanti
      rw [hi, hanti]
    · rw [hi, top_le_iff] at hzero
      exact absurd hzero htop

/-! ### Small bounds -/

section Small

-- every bound on the way is a number of 53 digits, which rounding leaves as it is
variable (hlo : |toReal lo| ≤ 2 ^ 50 * 2 ^ (971 : ℤ)) (hhi : |toReal hi| ≤ 2 ^ 50 * 2 ^ (971 : ℤ))
include hlo hhi

theorem abs_toReal_width_le : |toReal (hi - lo)| ≤ (2 ^ 51 : ℕ) * 2 ^ (971 : ℤ) := by
  obtain ⟨hfinite, hfinite'⟩ := isFinite_of_isFinite_sub h.width
  refine (abs_toReal_le (isRounded_sub hfinite hfinite') (by decide) (by decide) le_rfl ?_).2
  calc |toReal hi - toReal lo| ≤ |toReal hi| + |toReal lo| := abs_sub _ _
    _ ≤ 2 ^ 50 * 2 ^ (971 : ℤ) + 2 ^ 50 * 2 ^ (971 : ℤ) := add_le_add hhi hlo
    _ = (2 ^ 51 : ℕ) * 2 ^ (971 : ℤ) := by push_cast; ring

/-- The step is as much smaller than the width as there are intervals. -/
theorem abs_toReal_step_le {k : ℕ} (hk : k < 64) (hcount : 2 ^ k ≤ toReal g.intervals.toFloat) :
    |toReal g.step| ≤ (2 ^ 51 : ℕ) * 2 ^ (971 - k : ℤ) := by
  have hpos : 0 < toReal g.intervals.toFloat := lt_of_lt_of_le (by positivity) hcount
  refine (abs_toReal_le h.isRounded_step (by decide) (by omega) (by omega) ?_).2
  rw [abs_div, abs_of_pos hpos, div_le_iff₀ hpos]
  calc |toReal (hi - lo)| ≤ (2 ^ 51 : ℕ) * 2 ^ (971 : ℤ) := h.abs_toReal_width_le hlo hhi
    _ = (2 ^ 51 : ℕ) * 2 ^ (971 - k : ℤ) * 2 ^ k := by rw [two_zpow_eq_mul k]; ring
    _ ≤ (2 ^ 51 : ℕ) * 2 ^ (971 - k : ℤ) * toReal g.intervals.toFloat := by gcongr

/-- A multiple of the step is at most twice the width. -/
theorem abs_toReal_multiple_le {i : ℕ} (hn : i ≤ g.intervals.toNat) :
    ((UInt64.ofNat i).toFloat * g.step).isFinite = true ∧
      |toReal ((UInt64.ofNat i).toFloat * g.step)| ≤ (2 ^ 52 : ℕ) * 2 ^ (971 : ℤ) := by
  obtain ⟨k, hk, hcount, hindex⟩ := exists_two_pow_le h.one_le
  have hstep := h.abs_toReal_step_le hlo hhi hk hcount
  refine abs_toReal_le (h.isRounded_multiple i) (by decide) (by decide) le_rfl ?_
  calc |toReal (UInt64.ofNat i).toFloat * toReal g.step|
      = |toReal (UInt64.ofNat i).toFloat| * |toReal g.step| := abs_mul _ _
    _ ≤ 2 ^ (k + 1) * ((2 ^ 51 : ℕ) * 2 ^ (971 - k : ℤ)) := by
        gcongr
        exact hindex i hn
    _ = (2 ^ 52 : ℕ) * 2 ^ (971 : ℤ) := by rw [two_zpow_eq_mul k]; push_cast; ring

end Small

/-- **No position overflows** if the bounds are at most `2 ^ 1021`. -/
theorem isFinite_position (hlo : |toReal lo| ≤ 2 ^ (1021 : ℤ)) (hhi : |toReal hi| ≤ 2 ^ (1021 : ℤ))
    {i : ℕ} (hn : i ≤ g.intervals.toNat) : (g.position i).isFinite = true := by
  have hbound : (2 : ℝ) ^ (1021 : ℤ) = 2 ^ 50 * 2 ^ (971 : ℤ) := zpow_add_natCast 971 50
  rw [hbound] at hlo hhi
  obtain ⟨hmultiple, hle⟩ := h.abs_toReal_multiple_le hlo hhi hn
  have hstart : |toReal g.start| ≤ 2 ^ 50 * 2 ^ (971 : ℤ) := by rwa [h.start]
  refine (abs_toReal_le (isRounded_add h.isFinite_start hmultiple) (m := 5 * 2 ^ 50) (e := 971)
    (by decide) (by decide) le_rfl ?_).1
  calc |toReal g.start + toReal ((UInt64.ofNat i).toFloat * g.step)|
      ≤ |toReal g.start| + |toReal ((UInt64.ofNat i).toFloat * g.step)| := abs_add_le _ _
    _ ≤ 2 ^ 50 * 2 ^ (971 : ℤ) + (2 ^ 52 : ℕ) * 2 ^ (971 : ℤ) := add_le_add hstart hle
    _ = (5 * 2 ^ 50 : ℕ) * 2 ^ (971 : ℤ) := by push_cast; ring

end Divides

end Grid

end CurvePlot
