import CurvePlot.Proofs.Binary64.Order
import CurvePlot.Proofs.Sampler.Positions

/-!
# How many intervals the density asks for

The density asks for the ceiling of a rounded product of two doubles, the rounded width of the range
and the number of samples to a unit (`Sampler.toNat_intervals`). It asks for **none** if that product
is not positive, and the one test of the product stands for two: that the range is neither empty nor
inverted, and that the number of samples to a unit is positive. Where either fails there is none,
since the product has the sign that its factors have between them and neither the width nor the
comparison of the bounds is lost in rounding. The exception is where both fail by their signs: the
product of a negative width and a negative number is positive, so an inverted range is sampled to a
negative density as if neither were negative (`Sampler.toNat_intervals_cases`).
-/

namespace CurvePlot

open Binary64

namespace Sampler

variable (s : Sampler) (lo hi : Float) (requested : UInt64)

/-- The **number of intervals** in natural numbers. -/
theorem toNat_intervals : (s.intervals lo hi requested).toNat =
    min (max (max requested.toNat 1) (saturatingCeil (toEReal ((hi - lo) * s.samplesPerUnit))))
      (max s.maxPoints.toNat 1) := by
  rw [toNat_intervals_eq_min, toNat_ceilCount]

/-- The density **asks for some intervals** only if the range and the number of samples to a unit are
positive both, or negative both. -/
theorem signs_of_density (h : 0.0 < (hi - lo) * s.samplesPerUnit) :
    0.0 < s.samplesPerUnit ∧ lo < hi ∨ s.samplesPerUnit < 0.0 ∧ hi < lo := by
  obtain ⟨hwidth, hspu⟩ | ⟨hwidth, hspu⟩ := signs_of_zero_lt_mul h
  · exact .inl ⟨hspu, (zero_lt_sub_iff hi lo).mp hwidth⟩
  · exact .inr ⟨hspu, (sub_lt_zero_iff hi lo).mp hwidth⟩

/-- Without a density the number of intervals is what was **asked for**, up to the cap. -/
theorem toNat_intervals_of_not_density (h : ¬0.0 < (hi - lo) * s.samplesPerUnit) :
    (s.intervals lo hi requested).toNat = min (max requested.toNat 1) (max s.maxPoints.toNat 1) := by
  have hnone : (ceilCount ((hi - lo) * s.samplesPerUnit)).toNat = 0 := by
    rw [ceilCount, if_neg h]
    rfl
  rw [toNat_intervals_eq_min, hnone, Nat.max_zero]

/-- **When the density counts.** It counts for nothing if the number of samples to a unit is a NaN or
is not positive, or if the range is empty or inverted, unless the number is negative and the range
inverted. It counts if the two are positive both, and also if they are negative both. -/
theorem toNat_intervals_cases :
    ((s.samplesPerUnit.isNaN = true ∨ s.samplesPerUnit ≤ 0.0 ∨ hi ≤ lo) →
      ¬(s.samplesPerUnit < 0.0 ∧ hi < lo) →
      (s.intervals lo hi requested).toNat =
        min (max requested.toNat 1) (max s.maxPoints.toNat 1)) ∧
    (0.0 < s.samplesPerUnit ∧ lo < hi ∨ s.samplesPerUnit < 0.0 ∧ hi < lo →
      (s.intervals lo hi requested).toNat =
        min (max (max requested.toNat 1)
          (saturatingCeil (toEReal ((hi - lo) * s.samplesPerUnit)))) (max s.maxPoints.toNat 1)) := by
  refine ⟨fun hguard hexcept => ?_, fun _ => s.toNat_intervals lo hi requested⟩
  refine s.toNat_intervals_of_not_density lo hi requested fun hpos => ?_
  obtain ⟨hspu, hrange⟩ | hboth := s.signs_of_density lo hi hpos
  · obtain hnan | hspu' | hrange' := hguard
    · exact Bool.eq_false_iff.mp (isNaN_of_lt hspu).2 hnan
    · exact not_lt_of_le hspu' hspu
    · exact not_lt_of_le hrange' hrange
  · exact hexcept hboth

/-- An empty range has the seven intervals asked for, one of ten units has two hundred, and with a
negative density an inverted one has fifty. -/
theorem toNat_intervals_cases_seven :
    (standard.intervals 3.0 3.0 7).toNat = 7 ∧ (standard.intervals 0.0 10.0 7).toNat = 200 ∧
      ((⟨-5.0, 2000⟩ : Sampler).intervals 10.0 0.0 7).toNat = 50 := by
  refine ⟨?_, ?_, ?_⟩
  · exact (toNat_intervals_cases standard 3.0 3.0 7).1 (.inr (.inr (by decide +kernel)))
      (by decide +kernel)
  · rw [(toNat_intervals_cases standard 0.0 10.0 7).2 (by decide +kernel), ← toNat_ceilCount]
    decide +kernel
  · rw [(toNat_intervals_cases ⟨-5.0, 2000⟩ 10.0 0.0 7).2 (by decide +kernel), ← toNat_ceilCount]
    decide +kernel

/-- **A negative density counts** on an inverted range, although a density that is not positive is
meant to count for nothing, as is one on an inverted range. -/
theorem intervals_of_negative_density :
    (-5.0 : Float) ≤ 0.0 ∧ (0.0 : Float) ≤ 10.0 ∧
      ((⟨-5.0, 2000⟩ : Sampler).intervals 10.0 0.0 7).toNat = 50 ∧
      min (max (7 : UInt64).toNat 1) (max (2000 : UInt64).toNat 1) = 7 := by
  decide +kernel

end Sampler

end CurvePlot
