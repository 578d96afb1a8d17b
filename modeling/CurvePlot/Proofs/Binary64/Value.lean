import CurvePlot.Proofs.Binary64.Canonical
import CurvePlot.Proofs.Binary64.Rounding

/-!
# The values of doubles

A double that is not a NaN has a **value**, a real or an infinity. A double is some real **rounded**
(`IsRounded`) if its value is the nearest there is to that real. What arithmetic does at the end of
every operation is to round: it is given as many digits of the exact result as a double has, and with
them how the rest compares to one half of the last place (`isRounded_roundWithAccuracy`).
-/

namespace CurvePlot.Binary64

open Float.Model Float.Model.UnpackedFloat

/-! ### Values -/

/-- A magnitude with its sign. -/
def signed {R : Type} [Neg R] (s : Sign) (x : R) : R :=
  match s with
  | .negative => -x
  | .positive => x

/-- The **value** of a number. That of a NaN is of no account. -/
noncomputable def value : UnpackedFloat → EReal
  | .infinity s => signed s ⊤
  | .notANumber => 0
  | .zero _ => 0
  | .finite s m e _ => (signed s (scaled m e) : ℝ)

/-- The **value** of a double. -/
noncomputable def toEReal (v : Float) : EReal :=
  value v.toModel.unpack

/-- The value of a finite double. -/
noncomputable def toReal (v : Float) : ℝ :=
  (toEReal v).toReal

/-- The double is a real number, **rounded**. -/
structure IsRounded (v : Float) (x : ℝ) : Prop where
  isNaN : v.isNaN = false
  toEReal : toEReal v = nearest x

theorem nearest_signed (s : Sign) (x : ℝ) : nearest (signed s x) = signed s (nearest x) := by
  cases s with
  | negative => exact nearest_neg x
  | positive => rfl

theorem isFinite_iff (v : Float) :
    v.isFinite = true ↔ v.isNaN = false ∧ toEReal v ≠ ⊥ ∧ toEReal v ≠ ⊤ := by
  change v.toModel.unpack.isFinite = true ↔ v.toModel.unpack.isNaN = false ∧
    value v.toModel.unpack ≠ ⊥ ∧ value v.toModel.unpack ≠ ⊤
  cases v.toModel.unpack with
  | infinity s => cases s <;> simp [UnpackedFloat.isFinite, value, signed]
  | notANumber => simp [UnpackedFloat.isFinite, UnpackedFloat.isNaN]
  | zero s => simp [UnpackedFloat.isFinite, UnpackedFloat.isNaN, value]
  | finite s m e hm => simp [UnpackedFloat.isFinite, UnpackedFloat.isNaN, value]

/-- A finite double is a zero or canonical. -/
theorem unpack_of_isFinite {v : Float} (h : v.isFinite = true) :
    (∃ s, v.toModel.unpack = .zero s) ∨
      ∃ s m e, ∃ canonical : IsCanonical m e, e ≤ 971 ∧
        v.toModel.unpack = .finite s m e canonical.pos := by
  change v.toModel.unpack.isFinite = true at h
  cases hv : v.toModel.unpack with
  | infinity s => simp [hv, UnpackedFloat.isFinite] at h
  | notANumber => simp [hv, UnpackedFloat.isFinite] at h
  | zero s => exact .inl ⟨s, rfl⟩
  | finite s m e hm =>
    obtain ⟨canonical, he⟩ := isCanonical_of_unpack hv
    exact .inr ⟨s, m, e, canonical, he, rfl⟩

/-- What is neither finite nor a NaN is an infinity. -/
theorem unpack_of_not_isFinite {v : Float} (h : v.isNaN = false) (h' : v.isFinite = false) :
    ∃ s, v.toModel.unpack = .infinity s := by
  change v.toModel.unpack.isNaN = false at h
  change v.toModel.unpack.isFinite = false at h'
  cases hv : v.toModel.unpack with
  | infinity s => exact ⟨s, rfl⟩
  | notANumber => simp [hv, UnpackedFloat.isNaN] at h
  | zero s => simp [hv, UnpackedFloat.isFinite] at h'
  | finite s m e hm => simp [hv, UnpackedFloat.isFinite] at h'

theorem ofModel_pack_of_unpack {v : Float} {u : UnpackedFloat} (h : v.toModel.unpack = u) :
    .ofModel (Float.Model.pack u) = v := by
  obtain ⟨s, e, m, rfl⟩ := exists_ofFields v
  rw [← h, unpack_ofFields]
  rfl

theorem toReal_of_zero {v : Float} {s : Sign} (h : v.toModel.unpack = .zero s) : toReal v = 0 := by
  rw [toReal, toEReal, h, value, EReal.toReal_zero]

theorem toReal_of_finite {v : Float} {s : Sign} {m : ℕ} {e : ℤ} {hm : 0 < m}
    (h : v.toModel.unpack = .finite s m e hm) : toReal v = signed s (m * 2 ^ e : ℝ) := by
  rw [toReal, toEReal, h, value, EReal.toReal_coe, scaled]

theorem coe_toReal {v : Float} (h : v.isFinite = true) : (toReal v : EReal) = toEReal v := by
  obtain ⟨-, hbot, htop⟩ := (isFinite_iff v).mp h
  exact EReal.coe_toReal htop hbot

theorem toEReal_of_not_isFinite {v : Float} (h : v.isNaN = false) (h' : v.isFinite = false) :
    toEReal v = ⊥ ∨ toEReal v = ⊤ := by
  obtain ⟨s, hv⟩ := unpack_of_not_isFinite h h'
  rw [toEReal, hv]
  cases s with
  | negative => exact .inl EReal.neg_top
  | positive => exact .inr rfl

/-- A finite double is its own value, rounded. -/
theorem isRounded_toReal {v : Float} (h : v.isFinite = true) : IsRounded v (toReal v) := by
  refine ⟨isNaN_of_isFinite h, ?_⟩
  obtain ⟨s, hv⟩ | ⟨s, m, e, canonical, he, hv⟩ := unpack_of_isFinite h
  · simp [toReal, toEReal, hv, value, nearest_zero]
  · rw [toReal_of_finite hv, toEReal, hv, value, scaled]
    have hround := roundMagnitude_of_lt canonical.lt canonical.le_exponent he
    rw [nearest_signed, nearest_of_nonneg (by positivity), hround]
    cases s <;> rfl

/-- The double is an extended real, **rounded**. -/
structure IsNearest (v : Float) (x : EReal) : Prop where
  isNaN : v.isNaN = false
  toEReal : toEReal v = nearestExtended x

theorem IsRounded.isNearest {v : Float} {x : ℝ} (h : IsRounded v x) : IsNearest v x := by
  refine ⟨h.isNaN, ?_⟩
  rw [h.toEReal, nearestExtended_coe]

/-- A double that is not a NaN is its own value, rounded. -/
theorem isNearest_toEReal {v : Float} (h : v.isNaN = false) : IsNearest v (toEReal v) := by
  cases hfin : v.isFinite with
  | true =>
    rw [← coe_toReal hfin]
    exact (isRounded_toReal hfin).isNearest
  | false =>
    refine ⟨h, ?_⟩
    obtain hv | hv := toEReal_of_not_isFinite h hfin
    · rw [hv, nearestExtended_bot]
    · rw [hv, nearestExtended_top]

theorem IsNearest.toEReal_le {v w : Float} {x y : EReal} (hv : IsNearest v x) (hw : IsNearest w y)
    (h : x ≤ y) : Binary64.toEReal v ≤ Binary64.toEReal w := by
  rw [hv.toEReal, hw.toEReal]
  exact nearestExtended_mono h

/-- The value of a finite double has 53 digits at most. -/
theorem exists_abs_toReal_eq {v : Float} (h : v.isFinite = true) :
    ∃ (m : ℕ) (e : ℤ), m < 2 ^ 53 ∧ -1074 ≤ e ∧ e ≤ 971 ∧ |toReal v| = m * 2 ^ e := by
  obtain ⟨s, hv⟩ | ⟨s, m, e, hcan, he, hv⟩ := unpack_of_isFinite h
  · exact ⟨0, 0, by decide, by decide, by decide, by simp [toReal_of_zero hv]⟩
  · have hnonneg : (0 : ℝ) ≤ m * 2 ^ e := by positivity
    refine ⟨m, e, hcan.lt, hcan.le_exponent, he, ?_⟩
    rw [toReal_of_finite hv]
    cases s with
    | negative => rw [signed, abs_neg, abs_of_nonneg hnonneg]
    | positive => rw [signed, abs_of_nonneg hnonneg]

/-- What lies between a number of 53 digits and its negation is rounded to a finite double between
the two. -/
theorem abs_toReal_le {v : Float} {x : ℝ} (h : IsRounded v x) {m : ℕ} (hm : m < 2 ^ 53) {e : ℤ}
    (he : -1074 ≤ e) (he' : e ≤ 971) (hx : |x| ≤ m * 2 ^ e) :
    v.isFinite = true ∧ |toReal v| ≤ m * 2 ^ e := by
  obtain ⟨hlo, hhi⟩ := abs_le.mp hx
  have hbound : nearest (m * 2 ^ e) = ((m * 2 ^ e : ℝ) : EReal) := by
    rw [nearest_of_nonneg (by positivity), roundMagnitude_of_lt hm he he']
  have hle : toEReal v ≤ ((m * 2 ^ e : ℝ) : EReal) := by
    rw [h.toEReal, ← hbound]
    exact nearest_mono hhi
  have hge : ((-(m * 2 ^ e) : ℝ) : EReal) ≤ toEReal v := by
    rw [h.toEReal, EReal.coe_neg, ← hbound, ← nearest_neg]
    exact nearest_mono hlo
  have hfinite : v.isFinite = true := (isFinite_iff v).mpr
    ⟨h.isNaN, (hge.trans_lt' (EReal.bot_lt_coe _)).ne', (hle.trans_lt (EReal.coe_lt_top _)).ne⟩
  rw [← coe_toReal hfinite] at hle hge
  exact ⟨hfinite, abs_le.mpr ⟨EReal.coe_le_coe_iff.mp hge, EReal.coe_le_coe_iff.mp hle⟩⟩

/-! ### Extended significands -/

/-- The significand and its two further digits **stand for** a number: there is the significand, the
first digit at the place behind it, and less than that place besides, which is nothing if the second
digit is clear. -/
def Represents (em : ExtendedMantissa) (x : ℝ) : Prop :=
  ∃ rest : ℝ, 0 ≤ rest ∧ rest < scaled 1 (-1) ∧ (em.stickyBit = false ↔ rest = 0) ∧
    x = em.mantissa + scaled em.roundBit.toNat (-1) + rest

theorem represents_iff {em : ExtendedMantissa} {x : ℝ} :
    Represents em x ↔ ∃ rest : ℝ, 0 ≤ rest ∧ 2 * rest < 1 ∧ (em.stickyBit = false ↔ rest = 0) ∧
      x = em.mantissa + (if em.roundBit then 1 / 2 else 0) + rest := by
  have hplace : scaled 1 (-1) = 1 / 2 := by norm_num [scaled]
  have hdigit : scaled em.roundBit.toNat (-1) = if em.roundBit then 1 / 2 else 0 := by
    cases em.roundBit with
    | false => simp [scaled]
    | true => simpa using hplace
  have hlt (rest : ℝ) : rest < 1 / 2 ↔ 2 * rest < 1 := by rw [lt_div_iff₀ two_pos, mul_comm]
  simp only [Represents, hplace, hdigit, hlt]

@[simp] theorem mantissa_ofMantissaAndAccuracy (m : ℕ) (acc : Accuracy) :
    (ExtendedMantissa.ofMantissaAndAccuracy m acc).mantissa = m := by
  unfold ExtendedMantissa.ofMantissaAndAccuracy
  split <;> rfl

theorem represents_exact (m : ℕ) :
    Represents (ExtendedMantissa.ofMantissaAndAccuracy m .exact) m :=
  represents_iff.mpr ⟨0, le_rfl, by norm_num, by simp [ExtendedMantissa.ofMantissaAndAccuracy],
    by simp [ExtendedMantissa.ofMantissaAndAccuracy]⟩

theorem represents_fraction (n : ℕ) {d : ℕ} (hd : 0 < d) :
    Represents (ExtendedMantissa.ofMantissaAndAccuracy (n / d) (accuracyOfFraction (n % d) d))
      (n / d) := by
  have hd' : (0 : ℝ) < d := by exact_mod_cast hd
  have hlt : ((n % d : ℕ) : ℝ) < d := by exact_mod_cast Nat.mod_lt n hd
  have hquot : (n : ℝ) / d = (n / d : ℕ) + (n % d : ℕ) / d := by
    rw [div_eq_iff hd'.ne', add_mul, div_mul_cancel₀ _ hd'.ne']
    exact_mod_cast (Nat.div_add_mod' n d).symm
  rw [hquot]
  unfold accuracyOfFraction
  split_ifs with hr
  · simpa [hr] using represents_exact (n / d)
  have hpos : (0 : ℝ) < (n % d : ℕ) / d := by positivity
  -- the remainder is compared to one half of the divisor
  rcases lt_trichotomy (2 * (n % d)) d with h | h | h
  · have h' : 2 * ((n % d : ℕ) / d : ℝ) < 1 := by
      rw [← mul_div_assoc, div_lt_one hd']
      exact_mod_cast h
    refine represents_iff.mpr ⟨(n % d : ℕ) / d, hpos.le, h', ?_, ?_⟩ <;>
      simp [ExtendedMantissa.ofMantissaAndAccuracy, Nat.compare_eq_lt.mpr h, hpos.ne']
  · have h' : ((n % d : ℕ) / d : ℝ) = 1 / 2 := by
      rw [div_eq_div_iff hd'.ne' two_ne_zero, one_mul, mul_comm]
      exact_mod_cast h
    refine represents_iff.mpr ⟨0, le_rfl, by norm_num, ?_, ?_⟩ <;>
      simp [ExtendedMantissa.ofMantissaAndAccuracy, Nat.compare_eq_eq.mpr h, h']
  · have h' : 1 < 2 * ((n % d : ℕ) / d : ℝ) := by
      rw [← mul_div_assoc, one_lt_div hd']
      exact_mod_cast h
    have h'' : ((n % d : ℕ) / d : ℝ) < 1 := (div_lt_one hd').mpr hlt
    refine represents_iff.mpr ⟨(n % d : ℕ) / d - 1 / 2, by linarith, by linarith, ?_, ?_⟩
    · simp only [ExtendedMantissa.ofMantissaAndAccuracy, Nat.compare_eq_gt.mpr h]
      simp only [Bool.true_eq_false, false_iff]
      linarith
    · simp [ExtendedMantissa.ofMantissaAndAccuracy, Nat.compare_eq_gt.mpr h]

namespace Represents

variable {em : ExtendedMantissa} {x : ℝ}

theorem shiftRightOne (h : Represents em x) : Represents em.shiftRightOne (x / 2) := by
  obtain ⟨rest, hnonneg, hlt, hsticky, rfl⟩ := represents_iff.mp h
  have hhalf : (em.mantissa : ℝ) / 2 = (em.mantissa / 2 : ℕ) + (em.mantissa % 2 : ℕ) / 2 := by
    have hdigits : ((em.mantissa / 2 : ℕ) * 2 + (em.mantissa % 2 : ℕ) : ℝ) = em.mantissa := by
      exact_mod_cast Nat.div_add_mod' em.mantissa 2
    linarith
  refine represents_iff.mpr ⟨((if em.roundBit then 1 / 2 else 0) + rest) / 2, ?_, ?_, ?_, ?_⟩
  · split_ifs <;> linarith
  · split_ifs <;> linarith
  · rw [ExtendedMantissa.shiftRightOne]
    cases em.roundBit with
    | true =>
      simp only [Bool.true_or, Bool.true_eq_false, if_true, false_iff]
      linarith
    | false => simpa using hsticky
  · rw [add_assoc, add_div, hhalf]
    rcases Nat.mod_two_eq_zero_or_one em.mantissa with hr | hr
    · simp [ExtendedMantissa.shiftRightOne, hr]
    · simp [ExtendedMantissa.shiftRightOne, hr]

/-- **Shifting** keeps what the digits stand for. -/
theorem shiftRight (h : Represents em x) (j : ℕ) : Represents (em >>> j) (x / 2 ^ j) := by
  change Represents (j.repeat ExtendedMantissa.shiftRightOne em) _
  induction j with
  | zero => simpa [Nat.repeat] using h
  | succ j ih =>
    rw [Nat.repeat, pow_succ, ← div_div]
    exact ih.shiftRightOne

theorem floor_eq (h : Represents em x) : ⌊x⌋ = em.mantissa := by
  obtain ⟨rest, hnonneg, hlt, -, rfl⟩ := represents_iff.mp h
  rw [Int.floor_eq_iff]
  constructor <;> push_cast <;> split_ifs <;> linarith

/-- **Rounding** the digits is rounding what they stand for. -/
theorem roundedMantissa_eq (h : Represents em x) : (em.roundedMantissa : ℤ) = roundEven x := by
  have hfloor := h.floor_eq
  obtain ⟨rest, hnonneg, hlt, hsticky, hx⟩ := represents_iff.mp h
  have hfract : Int.fract x = (if em.roundBit then 1 / 2 else 0) + rest := by
    rw [Int.fract, hfloor, hx]
    push_cast
    ring
  unfold roundEven
  rw [hfract, hfloor]
  obtain ⟨m, round, sticky⟩ := em
  cases round with
  | false =>
    rw [if_pos (by simpa using hlt)]
    cases sticky <;> rfl
  | true =>
    rw [if_neg (by rw [if_pos rfl]; linarith)]
    cases sticky with
    | false =>
      rw [if_neg (by simp [hsticky.mp rfl])]
      simp [ExtendedMantissa.roundedMantissa, ExtendedMantissa.accuracy,
        Accuracy.roundToNearestEven]
    | true =>
      have hpos : 0 < rest := hnonneg.lt_of_ne' fun h => absurd (hsticky.mpr h) (by simp)
      rw [if_pos (by rw [if_pos rfl]; linarith)]
      rfl

end Represents

/-! ### Rounding -/

/-- The first digits of a number tell its last place. -/
theorem lastPlace_eq {m : ℕ} {e : ℤ} {x : ℝ} (hx : 0 < x) (hle : m * 2 ^ e ≤ x)
    (hlt : x < (m + 1) * 2 ^ e) (he : e ≤ format.targetExponent (totalExponent m e)) :
    lastPlace x = format.targetExponent (totalExponent m e) := by
  rw [targetExponent_eq] at he ⊢
  have hlog : Int.log 2 x < m.log2 + 1 + e := by
    refine (Int.lt_zpow_iff_log_lt one_lt_two hx).mp ?_
    have hm : (m : ℝ) + 1 ≤ 2 ^ (m.log2 + 1) := by exact_mod_cast Nat.lt_log2_self
    calc x < (m + 1) * 2 ^ e := hlt
      _ ≤ 2 ^ (m.log2 + 1) * 2 ^ e := by gcongr
      _ = _ := by
        rw [← zpow_add_natCast, add_comm e]
        push_cast
        rfl
  unfold lastPlace
  rcases Nat.eq_zero_or_pos m with rfl | hpos
  · -- without a digit the exponent is that of the least doubles
    rw [Nat.log2_zero] at *
    omega
  · have hlog' : m.log2 + e ≤ Int.log 2 x := by
      refine (Int.zpow_le_iff_le_log one_lt_two hx).mp ?_
      have hm : (2 : ℝ) ^ m.log2 ≤ m := by exact_mod_cast Nat.log2_self_le (Nat.ne_of_gt hpos)
      calc _ = (2 : ℝ) ^ m.log2 * 2 ^ e := by
            rw [← zpow_add_natCast, add_comm e]
            rfl
        _ ≤ m * 2 ^ e := by gcongr
        _ ≤ x := hle
    omega

/-- **Packing** what is rounded to a multiple of its last place rounds it to a double. -/
theorem isRounded_pack {m : ℕ} {e : ℤ} (h : IsCanonical m e) (s : Sign) {x : ℝ} (hx : 0 ≤ x)
    (hm : m * 2 ^ e = roundToPlace x) :
    IsRounded (.ofModel (Float.Model.pack (.finite s m e h.pos))) (signed s x) := by
  rcases le_or_gt e 971 with he | he
  · have hv : (Float.ofModel (Float.Model.pack (.finite s m e h.pos))).toModel.unpack =
        .finite s m e h.pos := unpack_pack_of_le h s he
    refine ⟨congrArg UnpackedFloat.isNaN hv, ?_⟩
    rw [toEReal, hv, nearest_signed, nearest_of_nonneg hx, roundMagnitude, ← hm,
      if_neg (mul_zpow_lt h.lt he).not_ge]
    cases s <;> rfl
  · have hv : (Float.ofModel (Float.Model.pack (.finite s m e h.pos))).toModel.unpack =
        .infinity s := unpack_pack_of_lt h s he
    refine ⟨congrArg UnpackedFloat.isNaN hv, ?_⟩
    rw [toEReal, hv, nearest_signed, nearest_of_nonneg hx, roundMagnitude, ← hm,
      if_pos (le_mul_zpow (h.two_pow_le (by omega)) he)]
    rfl

theorem isRounded_pack_zero (s : Sign) {x : ℝ} (hx : nearest x = 0) :
    IsRounded (.ofModel (Float.Model.pack (.zero s))) x := by
  have hv : (Float.ofModel (Float.Model.pack (.zero s))).toModel.unpack = .zero s := by
    cases s <;> rfl
  exact ⟨congrArg UnpackedFloat.isNaN hv, by rw [toEReal, hv, value, hx]⟩

/-- Shifting brings a number to its last place. -/
theorem exists_shiftToTargetExponent {m : ℕ} {e : ℤ} {acc : Accuracy} {x : ℝ} (hx : 0 < x)
    (h : Represents (ExtendedMantissa.ofMantissaAndAccuracy m acc) (x / 2 ^ e))
    (he : e ≤ format.targetExponent (totalExponent m e)) :
    ∃ em, shiftToTargetExponent format m e acc = (em, lastPlace x) ∧
      Represents em (x / 2 ^ lastPlace x) := by
  have hpow : (0 : ℝ) < 2 ^ e := by positivity
  have hfloor := h.floor_eq
  rw [mantissa_ofMantissaAndAccuracy, Int.floor_eq_iff, Int.cast_natCast, le_div_iff₀ hpow,
    div_lt_iff₀ hpow] at hfloor
  have hplace := lastPlace_eq hx hfloor.1 hfloor.2 he
  rw [← hplace] at he
  obtain ⟨j, hj⟩ := Int.le.dest he
  have hamount : (lastPlace x - e).toNat = j := by omega
  refine ⟨ExtendedMantissa.ofMantissaAndAccuracy m acc >>> j, ?_, ?_⟩
  · unfold shiftToTargetExponent shiftToExponent
    simp only [← hplace, hamount, hj]
  · have hshift := h.shiftRight j
    rwa [div_div, mul_comm, ← zpow_add_natCast, hj] at hshift

theorem roundWithAccuracy_of_roundedMantissa_eq_zero {m : ℕ} {e : ℤ} {acc : Accuracy}
    {em : ExtendedMantissa} {t : ℤ} (first : shiftToTargetExponent format m e acc = (em, t))
    (ht : -1074 ≤ t) (h : em.roundedMantissa = 0) (s : Sign) :
    roundWithAccuracy format s m e acc = .zero s := by
  have hamount : (format.targetExponent (totalExponent 0 t) - t).toNat = 0 := by
    rw [targetExponent_eq, Nat.log2_zero]
    omega
  have again : shiftToTargetExponent format 0 t .exact =
      (ExtendedMantissa.ofMantissaAndAccuracy 0 .exact, t) := by
    unfold shiftToTargetExponent shiftToExponent
    simp only [hamount, Int.natCast_zero, Int.add_zero]
    rfl
  unfold roundWithAccuracy
  simp only [first, h, again]
  rfl

/-- **Rounding** is what arithmetic does to the digits of an exact result. -/
theorem isRounded_roundWithAccuracy (s : Sign) {m : ℕ} {e : ℤ} {acc : Accuracy} {x : ℝ}
    (hx : 0 < x) (h : Represents (ExtendedMantissa.ofMantissaAndAccuracy m acc) (x / 2 ^ e))
    (he : e ≤ format.targetExponent (totalExponent m e)) :
    IsRounded (.ofModel (Float.Model.pack (roundWithAccuracy format s m e acc))) (signed s x) := by
  obtain ⟨em, first, hem⟩ := exists_shiftToTargetExponent hx h he
  have hround := hem.roundedMantissa_eq
  have hvalue : (em.roundedMantissa : ℝ) * 2 ^ lastPlace x = roundToPlace x := by
    rw [roundToPlace, ← hround, Int.cast_natCast]
  have hmin : -1074 ≤ lastPlace x := le_max_right _ _
  have hle : em.roundedMantissa ≤ 2 ^ 53 := by
    have := roundEven_le_of_lastPlace x
    omega
  obtain hzero | hpos := Nat.eq_zero_or_pos em.roundedMantissa
  · have hnearest : nearest (signed s x) = 0 := by
      have hlarge : (0 : ℝ) < 2 ^ (1024 : ℤ) := by positivity
      rw [hzero, Nat.cast_zero, zero_mul] at hvalue
      rw [nearest_signed, nearest_of_nonneg hx.le, roundMagnitude, ← hvalue, if_neg hlarge.not_ge]
      cases s <;> simp [signed]
    rw [roundWithAccuracy_of_roundedMantissa_eq_zero first hmin hzero s]
    exact isRounded_pack_zero s hnearest
  obtain hlt | heq := hle.lt_or_eq
  · have hcan : IsCanonical em.roundedMantissa (lastPlace x) :=
      isCanonical_of_bounds hpos hlt hmin fun h => by
        have := le_roundEven_of_lastPlace hx h
        omega
    rw [roundWithAccuracy_of_shiftToTargetExponent (j := 0) first hcan rfl (Int.sub_zero _).symm s]
    exact isRounded_pack hcan s hx.le hvalue
  · -- the rounding carried, so there is one digit too many
    have hcan : IsCanonical (2 ^ 52) (lastPlace x + 1) :=
      isCanonical_of_bounds (by decide) (by decide) (by omega) fun _ => le_rfl
    rw [roundWithAccuracy_of_shiftToTargetExponent (j := 1) first hcan heq (by omega) s]
    refine isRounded_pack hcan s hx.le ?_
    rw [← hvalue, heq, zpow_add_one₀ two_ne_zero]
    push_cast
    ring

end CurvePlot.Binary64
