import CurvePlot.Proofs.Binary64.Monotone
import CurvePlot.Proofs.Sampler.Density

/-!
# Wider ranges have no fewer intervals

The number of intervals is a maximum cut off at the cap, so it grows with each of the numbers that it is
made of (`Sampler.intervals_le_intervals`): what was asked for, the cap, and what the density asks for.
The last of them is a rounded product of a rounded difference, rounded up, and may overflow at each
step; none of the steps turns the order around. If the density asks for some intervals the range goes
up, its width is positive, and a wider range is of no lesser width. Nothing is said of negative numbers
of samples to a unit, which make an inverted range lose intervals when it is widened.
-/

namespace CurvePlot

open Binary64

namespace Sampler

variable {s s' : Sampler} {lo hi lo' hi' : Float} {requested requested' : UInt64}

/-- The number of intervals is **monotone** in what is asked for, in what the density asks for and in
the cap. -/
theorem intervals_le_intervals (hrequested : requested ≤ requested')
    (hcap : s.maxPoints ≤ s'.maxPoints)
    (hdensity : ceilCount ((hi - lo) * s.samplesPerUnit) ≤
      ceilCount ((hi' - lo') * s'.samplesPerUnit)) :
    s.intervals lo hi requested ≤ s'.intervals lo' hi' requested' := by
  rw [UInt64.le_iff_toNat_le] at hrequested hcap hdensity ⊢
  rw [toNat_intervals_eq_min, toNat_intervals_eq_min]
  omega

/-- **What the density asks for** does not decrease when a range is widened. -/
theorem density_le_density (hpos : 0.0 < s.samplesPerUnit) (hlo : lo' ≤ lo) (hhi : hi ≤ hi') :
    ceilCount ((hi - lo) * s.samplesPerUnit) ≤ ceilCount ((hi' - lo') * s.samplesPerUnit) := by
  by_cases hsome : 0.0 < (hi - lo) * s.samplesPerUnit
  · obtain ⟨-, hrange⟩ | ⟨hneg, -⟩ := s.signs_of_density lo hi hsome
    · have hwidth : 0.0 < hi - lo := (zero_lt_sub_iff hi lo).mpr hrange
      have hwider : hi - lo ≤ hi' - lo' := sub_le_sub_of_lt hrange hhi hlo
      exact ceilCount_mono (mul_le_mul_of_pos hwidth hwider hpos)
    · exact absurd (toEReal_strictMono hneg) (toEReal_strictMono hpos).not_gt
  · rw [ceilCount, if_neg hsome]
    exact UInt64.zero_le

/-- **The number of intervals** lies between one and the cap, and is no less than what was asked for as
far as the cap allows. It does not decrease when more is asked for or when the cap is raised; and if the
number of samples to a unit is positive, it does not when the range is widened at either end or both,
to an infinity even. -/
theorem intervals_grow_within_cap (s : Sampler) (lo hi : Float) (requested : UInt64) :
    (1 ≤ s.intervals lo hi requested ∧ s.intervals lo hi requested ≤ max s.maxPoints 1) ∧
    min requested (max s.maxPoints 1) ≤ s.intervals lo hi requested ∧
    (∀ requested', requested ≤ requested' →
      s.intervals lo hi requested ≤ s.intervals lo hi requested') ∧
    (∀ maxPoints, s.maxPoints ≤ maxPoints →
      s.intervals lo hi requested ≤ { s with maxPoints }.intervals lo hi requested) ∧
    (0.0 < s.samplesPerUnit → ∀ lo' hi', lo' ≤ lo → hi ≤ hi' →
      s.intervals lo hi requested ≤ s.intervals lo' hi' requested) := by
  have hcount := s.toNat_intervals_eq_min lo hi requested
  have hcap : (max s.maxPoints 1).toNat = max s.maxPoints.toNat 1 := toNat_max s.maxPoints 1
  refine ⟨⟨?_, ?_⟩, ?_, ?_, ?_, ?_⟩
  · rw [UInt64.le_iff_toNat_le]
    exact s.one_le_intervals lo hi requested
  · rw [UInt64.le_iff_toNat_le, hcap, hcount]
    exact Nat.min_le_right _ _
  · rw [UInt64.le_iff_toNat_le, toNat_min, hcap, hcount]
    omega
  · intro requested' hrequested
    exact intervals_le_intervals hrequested UInt64.le_rfl UInt64.le_rfl
  · intro maxPoints hcap
    exact intervals_le_intervals UInt64.le_rfl hcap UInt64.le_rfl
  · intro hpos lo' hi' hlo hhi
    exact intervals_le_intervals UInt64.le_rfl UInt64.le_rfl (density_le_density hpos hlo hhi)

/-- Ten units have two hundred intervals, and a range so wide that its width is no double has as many as
the cap allows. -/
theorem intervals_grow_within_cap_overflow :
    (0.0 : Float) < standard.samplesPerUnit ∧ (-1e308 : Float) ≤ 0.0 ∧ (10.0 : Float) ≤ 1e308 ∧
      ((1e308 : Float) - -1e308).isFinite = false ∧
      standard.intervals 0.0 10.0 7 = 200 ∧
      standard.intervals (-1e308) 1e308 7 = 2000 ∧
      standard.intervals 0.0 10.0 7 ≤ standard.intervals (-1e308) 1e308 7 := by
  have hpos : (0.0 : Float) < standard.samplesPerUnit := by decide +kernel
  have hlo : (-1e308 : Float) ≤ 0.0 := by decide +kernel
  have hhi : (10.0 : Float) ≤ 1e308 := by decide +kernel
  refine ⟨hpos, hlo, hhi, by decide +kernel, by decide +kernel, by decide +kernel, ?_⟩
  exact (intervals_grow_within_cap standard 0.0 10.0 7).2.2.2.2 hpos _ _ hlo hhi

/-- To a negative number of samples to a unit, an inverted range loses intervals when it is widened. -/
example : (⟨-5.0, 2000⟩ : Sampler).intervals 10.0 0.0 7 = 50 ∧
    (⟨-5.0, 2000⟩ : Sampler).intervals 10.0 5.0 7 = 25 := by
  decide +kernel

end Sampler

end CurvePlot
