import CurvePlot.Proofs.Binary64.Value

/-!
# Arithmetic on doubles

The sum, the difference, the product and the quotient of two finite doubles, and the double of a
count, are the exact results, rounded (`isRounded_add`, `isRounded_sub`, `isRounded_mul`,
`isRounded_div`, `isRounded_toFloat`). Nothing that is not finite comes back into range: a sum with
an infinity is the infinity (`add_of_not_isFinite`). So a sum is the sum in the extended reals, rounded,
wherever there is one (`isNearest_add`), and sums are monotone (`toEReal_add_le_add`).
-/

namespace CurvePlot.Binary64

open Float.Model Float.Model.UnpackedFloat

/-! ### Rounding exact results -/

theorem mul_zpow_shiftLeft (m j : ℕ) (e : ℤ) : ((m <<< j : ℕ) : ℝ) * 2 ^ (e - j) = m * 2 ^ e := by
  have hsplit := zpow_add_natCast (e - j) j
  rw [sub_add_cancel] at hsplit
  rw [hsplit, Nat.shiftLeft_eq]
  push_cast
  ring

theorem isRounded_roundWithAccuracy_exact (s : Sign) {m : ℕ} (hm : 0 < m) {e : ℤ}
    (he : e ≤ format.targetExponent (totalExponent m e)) :
    IsRounded (.ofModel (Float.Model.pack (roundWithAccuracy format s m e .exact)))
      (signed s (m * 2 ^ e)) := by
  refine isRounded_roundWithAccuracy s (by positivity) ?_ he
  rw [mul_div_cancel_right₀ _ (by positivity)]
  exact represents_exact m

theorem isRounded_round (s : Sign) {m : ℕ} (hm : 0 < m) (e : ℤ) :
    IsRounded (.ofModel (Float.Model.pack (round format s m e))) (signed s (m * 2 ^ e)) := by
  unfold UnpackedFloat.round decreaseExponent
  simp only
  generalize hj : (e - format.targetExponent (totalExponent m e)).toNat = j
  rw [← mul_zpow_shiftLeft m j e]
  refine isRounded_roundWithAccuracy_exact s ?_ ?_
  · exact Nat.shiftLeft_pos_iff.mpr hm
  · rw [totalExponent_shiftLeft hm]
    omega

theorem isRounded_normalize (n e : ℤ) :
    IsRounded (.ofModel (Float.Model.pack (normalize format n e .positive))) (n * 2 ^ e) := by
  unfold UnpackedFloat.normalize
  rcases lt_trichotomy n 0 with h | rfl | h
  · have hcast : ((-n).toNat : ℝ) = -n := by exact_mod_cast Int.toNat_of_nonneg (by omega)
    have hround := isRounded_round .negative (m := (-n).toNat) (by omega) e
    rw [hcast, signed, neg_mul, neg_neg] at hround
    rwa [show compare n 0 = .lt from compare_lt_iff_lt.mpr h]
  · rw [Int.cast_zero, zero_mul]
    exact isRounded_pack_zero .positive nearest_zero
  · have hcast : (n.toNat : ℝ) = n := by exact_mod_cast Int.toNat_of_nonneg h.le
    have hround := isRounded_round .positive (m := n.toNat) (by omega) e
    rw [hcast] at hround
    rwa [show compare n 0 = .gt from compare_gt_iff_gt.mpr h]

/-! ### Operands -/

theorem add_eq (a b : Float) : a + b =
    .ofModel (Float.Model.pack (UnpackedFloat.add format a.toModel.unpack b.toModel.unpack)) := rfl

theorem sub_eq (a b : Float) : a - b =
    .ofModel (Float.Model.pack (UnpackedFloat.sub format a.toModel.unpack b.toModel.unpack)) := rfl

theorem mul_eq (a b : Float) : a * b =
    .ofModel (Float.Model.pack (UnpackedFloat.mul format a.toModel.unpack b.toModel.unpack)) := rfl

theorem div_eq (a b : Float) : a / b =
    .ofModel (Float.Model.pack (UnpackedFloat.div format a.toModel.unpack b.toModel.unpack)) := rfl

theorem unpack_neg (v : Float) : (-v).toModel.unpack = v.toModel.unpack.neg := by
  obtain ⟨s, e, m, rfl⟩ := exists_ofFields v
  rw [neg_ofFields, unpack_ofFields, unpack_ofFields, neg_fromFields]

theorem isFinite_neg (v : Float) : (-v).isFinite = v.isFinite := by
  obtain ⟨s, e, m, rfl⟩ := exists_ofFields v
  rw [neg_ofFields, isFinite_ofFields, isFinite_ofFields]

theorem isNaN_neg (v : Float) : (-v).isNaN = v.isNaN := by
  change (-v).toModel.unpack.isNaN = v.toModel.unpack.isNaN
  rw [unpack_neg]
  cases v.toModel.unpack <;> rfl

theorem toEReal_neg (v : Float) : toEReal (-v) = -toEReal v := by
  rw [toEReal, toEReal, unpack_neg]
  cases v.toModel.unpack with
  | infinity s => cases s <;> simp [UnpackedFloat.neg, value, signed]
  | notANumber => simp [UnpackedFloat.neg, value]
  | zero s => simp [UnpackedFloat.neg, value]
  | finite s m e hm => cases s <;> simp [UnpackedFloat.neg, value, signed]

theorem toReal_neg (v : Float) : toReal (-v) = -toReal v := by
  rw [toReal, toReal, toEReal_neg, EReal.toReal_neg_eq]

/-! ### Sums and differences -/

theorem apply_decreaseExponent (s : Sign) (m : ℕ) {e t : ℤ} (h : t ≤ e) :
    ((s.apply (decreaseExponent m e t).1 : ℤ) : ℝ) * 2 ^ t = signed s (m * 2 ^ e : ℝ) := by
  have hexp : e - (e - t).toNat = t := by omega
  have hshift := mul_zpow_shiftLeft m (e - t).toNat e
  rw [hexp] at hshift
  rw [← hshift]
  cases s with
  | negative =>
    change ((-(m <<< (e - t).toNat : ℕ) : ℤ) : ℝ) * 2 ^ t = -_
    rw [Int.cast_neg, Int.cast_natCast, neg_mul]
  | positive =>
    change (((m <<< (e - t).toNat : ℕ) : ℤ) : ℝ) * 2 ^ t = _
    rw [Int.cast_natCast]
    rfl

theorem isRounded_add {a b : Float} (ha : a.isFinite = true) (hb : b.isFinite = true) :
    IsRounded (a + b) (toReal a + toReal b) := by
  obtain ⟨s, hua⟩ | ⟨s, m, e, hcan, -, hua⟩ := unpack_of_isFinite ha <;>
    obtain ⟨s', hub⟩ | ⟨s', m', e', hcan', -, hub⟩ := unpack_of_isFinite hb
  · rw [add_eq, hua, hub, toReal_of_zero hua, toReal_of_zero hub, add_zero]
    cases s <;> cases s' <;> exact isRounded_pack_zero _ nearest_zero
  · have hsum : a + b = b := by
      rw [add_eq, hua, hub]
      exact ofModel_pack_of_unpack hub
    rw [hsum, toReal_of_zero hua, zero_add]
    exact isRounded_toReal hb
  · have hsum : a + b = a := by
      rw [add_eq, hua, hub]
      exact ofModel_pack_of_unpack hua
    rw [hsum, toReal_of_zero hub, add_zero]
    exact isRounded_toReal ha
  · -- both significands are brought to the lesser exponent
    have hsum := isRounded_normalize (s.apply (decreaseExponent m e (min e e')).1 +
      s'.apply (decreaseExponent m' e' (min e e')).1) (min e e')
    rw [Int.cast_add, add_mul, apply_decreaseExponent s m (min_le_left e e'),
      apply_decreaseExponent s' m' (min_le_right e e')] at hsum
    rw [add_eq, hua, hub, toReal_of_finite hua, toReal_of_finite hub]
    exact hsum

theorem apply_neg (s : Sign) (n : ℤ) : (-s).apply n = -s.apply n := by
  cases s with
  | negative => exact (neg_neg n).symm
  | positive => rfl

/-- A difference is a sum. -/
theorem sub_eq_add (a b : Float) : a - b = a + -b := by
  rw [sub_eq, add_eq, unpack_neg]
  congr 2
  cases a.toModel.unpack <;> cases b.toModel.unpack <;> try rfl
  simp only [UnpackedFloat.sub, UnpackedFloat.add, UnpackedFloat.neg, apply_neg, sub_eq_add_neg]

theorem isRounded_sub {a b : Float} (ha : a.isFinite = true) (hb : b.isFinite = true) :
    IsRounded (a - b) (toReal a - toReal b) := by
  rw [sub_eq_add, sub_eq_add_neg, ← toReal_neg b]
  exact isRounded_add ha ((isFinite_neg b).trans hb)

/-- A sum with an infinity is that infinity. -/
theorem add_of_not_isFinite {a b : Float} (ha : a.isFinite = true) (hb : b.isNaN = false)
    (hb' : b.isFinite = false) : a + b = b := by
  obtain ⟨s', hub⟩ := unpack_of_not_isFinite hb hb'
  obtain ⟨s, hua⟩ | ⟨s, m, e, hcan, -, hua⟩ := unpack_of_isFinite ha <;> rw [add_eq, hua, hub] <;>
    exact ofModel_pack_of_unpack hub

/-- So is one that begins with it, unless its summands are the two infinities. -/
theorem add_of_not_isFinite_left {a b : Float} (ha : a.isNaN = false) (ha' : a.isFinite = false)
    (hb : b.isNaN = false) (h : toEReal a ≠ ⊥ ∨ toEReal b ≠ ⊤) (h' : toEReal a ≠ ⊤ ∨ toEReal b ≠ ⊥) :
    a + b = a := by
  obtain ⟨s, hua⟩ := unpack_of_not_isFinite ha ha'
  cases hfin : b.isFinite with
  | true =>
    obtain ⟨s', hub⟩ | ⟨s', m, e, hcan, -, hub⟩ := unpack_of_isFinite hfin <;>
      rw [add_eq, hua, hub] <;> exact ofModel_pack_of_unpack hua
  | false =>
    obtain ⟨s', hub⟩ := unpack_of_not_isFinite hb hfin
    have same : s = s' := by
      rw [toEReal, toEReal, hua, hub] at h h'
      cases s <;> cases s' <;> simp [value, signed] at h h' ⊢
    rw [add_eq, hua, hub, ← same]
    cases s <;> exact ofModel_pack_of_unpack hua

/-- A **sum** is the sum in the extended reals, rounded, unless its summands are the two infinities. -/
theorem isNearest_add {a b : Float} (ha : a.isNaN = false) (hb : b.isNaN = false)
    (h : toEReal a ≠ ⊥ ∨ toEReal b ≠ ⊤) (h' : toEReal a ≠ ⊤ ∨ toEReal b ≠ ⊥) :
    IsNearest (a + b) (toEReal a + toEReal b) := by
  cases hfin : a.isFinite with
  | true =>
    cases hfin' : b.isFinite with
    | true =>
      rw [← coe_toReal hfin, ← coe_toReal hfin', ← EReal.coe_add]
      exact (isRounded_add hfin hfin').isNearest
    | false =>
      have hsum : toEReal a + toEReal b = toEReal b := by
        rw [← coe_toReal hfin]
        obtain hb' | hb' := toEReal_of_not_isFinite hb hfin'
        · rw [hb', EReal.add_bot]
        · rw [hb', EReal.coe_add_top]
      rw [add_of_not_isFinite hfin hb hfin', hsum]
      exact isNearest_toEReal hb
  | false =>
    have hsum : toEReal a + toEReal b = toEReal a := by
      obtain ha' | ha' := toEReal_of_not_isFinite ha hfin
      · rw [ha', EReal.bot_add]
      · rw [ha', EReal.top_add_of_ne_bot (h'.resolve_left (not_not_intro ha'))]
    rw [add_of_not_isFinite_left ha hfin hb h h', hsum]
    exact isNearest_toEReal ha

theorem isNearest_add_of_isFinite {a b : Float} (ha : a.isFinite = true) (hb : b.isNaN = false) :
    IsNearest (a + b) (toEReal a + toEReal b) := by
  obtain ⟨hnan, hbot, htop⟩ := (isFinite_iff a).mp ha
  exact isNearest_add hnan hb (.inl hbot) (.inl htop)

/-- The sum with a NaN is a NaN, that with an infinity is an infinity or a NaN. -/
theorem add_unpacked_of_not_isFinite {u w : UnpackedFloat}
    (h : ¬(u.isFinite = true ∧ w.isFinite = true)) :
    UnpackedFloat.add format u w = .notANumber ∨ ∃ s, UnpackedFloat.add format u w = .infinity s := by
  cases u with
  | notANumber => exact .inl (by cases w <;> rfl)
  | infinity s =>
    cases w with
    | notANumber => exact .inl rfl
    | infinity s' => cases s <;> cases s' <;> first | exact .inl rfl | exact .inr ⟨_, rfl⟩
    | zero s' | finite s' m' e' hm' => exact .inr ⟨s, rfl⟩
  | zero s | finite s m e hm =>
    cases w with
    | notANumber => exact .inl rfl
    | infinity s' => exact .inr ⟨s', rfl⟩
    | zero s' | finite s' m' e' hm' => exact absurd ⟨rfl, rfl⟩ h

/-- A finite sum has finite operands. -/
theorem isFinite_of_isFinite_add {a b : Float} (h : (a + b).isFinite = true) :
    a.isFinite = true ∧ b.isFinite = true := by
  by_contra hab
  rw [add_eq] at h
  obtain hnan | ⟨s, hinf⟩ := add_unpacked_of_not_isFinite hab
  · rw [hnan] at h
    exact absurd h (by decide)
  · rw [hinf] at h
    cases s <;> exact absurd h (by decide)

theorem isFinite_of_isFinite_sub {a b : Float} (h : (a - b).isFinite = true) :
    a.isFinite = true ∧ b.isFinite = true := by
  rw [sub_eq_add] at h
  rw [← isFinite_neg b]
  exact isFinite_of_isFinite_add h

/-! ### Products and quotients -/

theorem signed_mul (s t : Sign) (x y : ℝ) : signed (s * t) (x * y) = signed s x * signed t y := by
  cases s <;> cases t
  · exact (neg_mul_neg x y).symm
  · exact (neg_mul x y).symm
  · exact (mul_neg x y).symm
  · rfl

theorem signed_div (s t : Sign) (x y : ℝ) : signed (s / t) (x / y) = signed s x / signed t y := by
  cases s <;> cases t
  · exact (neg_div_neg_eq x y).symm
  · exact (neg_div y x).symm
  · exact (div_neg x).symm
  · rfl

theorem IsCanonical.exponent_add_le {m m' : ℕ} {e e' : ℤ} (h : IsCanonical m e)
    (h' : IsCanonical m' e') :
    e + e' ≤ format.targetExponent (totalExponent (m * m') (e + e')) := by
  have hpos := Nat.mul_pos h.pos h'.pos
  rw [targetExponent_eq]
  -- the product has 53 digits if one of the two has
  by_cases hlog : 2 ^ 52 ≤ m * m'
  · have := (Nat.le_log2 (Nat.ne_of_gt hpos)).mpr hlog
    omega
  · have he : e = -1074 := by
      by_contra he
      exact hlog ((h.two_pow_le he).trans (Nat.le_mul_of_pos_right m h'.pos))
    have he' : e' = -1074 := by
      by_contra he'
      exact hlog ((h'.two_pow_le he').trans (Nat.le_mul_of_pos_left m' h.pos))
    omega

theorem isRounded_mul {a b : Float} (ha : a.isFinite = true) (hb : b.isFinite = true) :
    IsRounded (a * b) (toReal a * toReal b) := by
  obtain ⟨s, hua⟩ | ⟨s, m, e, hcan, -, hua⟩ := unpack_of_isFinite ha <;>
    obtain ⟨s', hub⟩ | ⟨s', m', e', hcan', -, hub⟩ := unpack_of_isFinite hb
  · rw [mul_eq, hua, hub, toReal_of_zero hua, zero_mul]
    exact isRounded_pack_zero _ nearest_zero
  · rw [mul_eq, hua, hub, toReal_of_zero hua, zero_mul]
    exact isRounded_pack_zero _ nearest_zero
  · rw [mul_eq, hua, hub, toReal_of_zero hub, mul_zero]
    exact isRounded_pack_zero _ nearest_zero
  · have hproduct := isRounded_roundWithAccuracy_exact (s * s') (Nat.mul_pos hcan.pos hcan'.pos)
      (hcan.exponent_add_le hcan')
    have hvalue : ((m * m' : ℕ) : ℝ) * 2 ^ (e + e') = m * 2 ^ e * (m' * 2 ^ e') := by
      rw [zpow_add₀ two_ne_zero]
      push_cast
      ring
    rw [hvalue, signed_mul] at hproduct
    rw [mul_eq, hua, hub, toReal_of_finite hua, toReal_of_finite hub]
    exact hproduct

theorem log2_le_add_log2_div (n : ℕ) {d : ℕ} (hd : 0 < d) :
    n.log2 ≤ d.log2 + (n / d).log2 + 1 := by
  rcases Nat.eq_zero_or_pos n with rfl | hn
  · rw [Nat.log2_zero]
    exact Nat.zero_le _
  refine Nat.le_of_lt_succ ((Nat.log2_lt (Nat.ne_of_gt hn)).mpr ?_)
  calc n < d * (n / d + 1) := Nat.lt_mul_div_succ n hd
    _ ≤ 2 ^ (d.log2 + 1) * 2 ^ ((n / d).log2 + 1) :=
        Nat.mul_le_mul Nat.lt_log2_self.le Nat.lt_log2_self
    _ = 2 ^ (d.log2 + (n / d).log2 + 1 + 1) := by
        rw [← Nat.pow_add]
        congr 1
        omega

/-- **Dividing** magnitudes: the quotient is computed to enough digits for it to be rounded. -/
theorem isRounded_divCore (s : Sign) {m m' : ℕ} (hm : 0 < m) (hm' : 0 < m') (e e' : ℤ) :
    let quotient := divCore format m e m' e'
    IsRounded (.ofModel (Float.Model.pack
      (roundWithAccuracy format s quotient.1 quotient.2.1 quotient.2.2)))
      (signed s (m * 2 ^ e / (m' * 2 ^ e'))) := by
  intro quotient
  have hm₀ : (0 : ℝ) < m := by exact_mod_cast hm
  have hm₀' : (0 : ℝ) < m' := by exact_mod_cast hm'
  obtain ⟨t, ht⟩ : ∃ t, t = min (e - e')
      (format.targetExponent (totalExponent m e - totalExponent m' e')) := ⟨_, rfl⟩
  obtain ⟨j, hj⟩ : ∃ j, j = (e - e' - t).toNat := ⟨_, rfl⟩
  have hquotient : quotient =
      ((m <<< j) / m', t, accuracyOfFraction ((m <<< j) % m') m') := by
    rw [hj, ht]
    rfl
  rw [hquotient]
  refine isRounded_roundWithAccuracy s (by positivity) ?_ ?_
  · have hvalue : (m : ℝ) * 2 ^ e / (m' * 2 ^ e') / 2 ^ t = (m <<< j : ℕ) / m' := by
      have hexp : e - j = e' + t := by omega
      rw [← mul_zpow_shiftLeft m j e, hexp, zpow_add₀ two_ne_zero]
      field_simp
    rw [hvalue]
    exact represents_fraction (m <<< j) hm'
  · have hdigits := log2_le_add_log2_div (m <<< j) hm'
    rw [log2_shiftLeft hm] at hdigits
    rw [targetExponent_eq_max, totalExponent, totalExponent] at ht
    change t ≤ format.targetExponent (totalExponent ((m <<< j) / m') t)
    rw [targetExponent_eq]
    omega

theorem isRounded_div {a b : Float} (ha : a.isFinite = true) (hb : b.isFinite = true)
    (hb' : toReal b ≠ 0) : IsRounded (a / b) (toReal a / toReal b) := by
  obtain ⟨s', hub⟩ | ⟨s', m', e', hcan', -, hub⟩ := unpack_of_isFinite hb
  · exact absurd (toReal_of_zero hub) hb'
  obtain ⟨s, hua⟩ | ⟨s, m, e, hcan, -, hua⟩ := unpack_of_isFinite ha
  · rw [div_eq, hua, hub, toReal_of_zero hua, zero_div]
    exact isRounded_pack_zero _ nearest_zero
  · rw [div_eq, hua, hub, toReal_of_finite hua, toReal_of_finite hub, ← signed_div]
    exact isRounded_divCore (s / s') hcan.pos hcan'.pos e e'

/-! ### Counts -/

theorem isRounded_toFloat (n : UInt64) : IsRounded n.toFloat n.toNat := by
  have h := isRounded_normalize n.toNat 0
  rw [zpow_zero, mul_one] at h
  exact_mod_cast h

theorem isFinite_toFloat (n : UInt64) : n.toFloat.isFinite = true := by
  have hn : (n.toNat : ℝ) ≤ 2 ^ 64 := by exact_mod_cast n.toNat_lt.le
  refine (abs_toReal_le (isRounded_toFloat n) (m := 1) (e := 64) (by decide) (by decide) (by decide)
    ?_).1
  rw [Nat.abs_cast, Nat.cast_one, one_mul]
  exact_mod_cast hn

/-! ### Order -/

theorem toEReal_le_of_le {v w : Float} {x y : ℝ} (hv : IsRounded v x) (hw : IsRounded w y)
    (h : x ≤ y) : toEReal v ≤ toEReal w := by
  rw [hv.toEReal, hw.toEReal]
  exact nearest_mono h

theorem toReal_le_iff {v w : Float} (hv : v.isFinite = true) (hw : w.isFinite = true) :
    toReal v ≤ toReal w ↔ toEReal v ≤ toEReal w := by
  rw [← coe_toReal hv, ← coe_toReal hw, EReal.coe_le_coe_iff]

theorem toReal_toFloat_mono {n n' : UInt64} (h : n.toNat ≤ n'.toNat) :
    toReal n.toFloat ≤ toReal n'.toFloat := by
  rw [toReal_le_iff (isFinite_toFloat n) (isFinite_toFloat n')]
  exact toEReal_le_of_le (isRounded_toFloat n) (isRounded_toFloat n') (by exact_mod_cast h)

/-- A count that is a power of two is a double. -/
theorem toReal_toFloat_two_pow {n : UInt64} {k : ℕ} (h : n.toNat = 2 ^ k) :
    toReal n.toFloat = 2 ^ k := by
  have hk : k < 64 := (Nat.pow_lt_pow_iff_right one_lt_two).mp (h ▸ n.toNat_lt)
  have hround := roundMagnitude_of_lt (m := 1) (e := k) (by decide) (by omega) (by omega)
  rw [Nat.cast_one, one_mul, zpow_natCast, ← nearest_of_nonneg (by positivity)] at hround
  have hvalue := (isRounded_toFloat n).toEReal
  rw [h, Nat.cast_pow, Nat.cast_ofNat, hround, ← coe_toReal (isFinite_toFloat n)] at hvalue
  exact_mod_cast hvalue

/-- **Sums are monotone**, whether or not they overflow. -/
theorem toEReal_add_le_add {a b b' : Float} (ha : a.isFinite = true) (hb : b.isNaN = false)
    (hb' : b'.isNaN = false) (h : toEReal b ≤ toEReal b') : toEReal (a + b) ≤ toEReal (a + b') :=
  (isNearest_add_of_isFinite ha hb).toEReal_le (isNearest_add_of_isFinite ha hb')
    (add_le_add le_rfl h)

/-- Infinities of one sign are the same double. -/
theorem eq_of_toEReal_eq {v w : Float} (hv : v.isNaN = false) (hw : w.isNaN = false)
    (hv' : v.isFinite = false) (h : toEReal v = toEReal w) : v = w := by
  have hw' : w.isFinite = false := by
    refine Bool.eq_false_iff.mpr fun hfin => ?_
    obtain ⟨-, hbot, htop⟩ := (isFinite_iff w).mp hfin
    rw [← h] at hbot htop
    obtain h' | h' := toEReal_of_not_isFinite hv hv'
    · exact hbot h'
    · exact htop h'
  obtain ⟨s, hv⟩ := unpack_of_not_isFinite hv hv'
  obtain ⟨s', hw⟩ := unpack_of_not_isFinite hw hw'
  have hs : s = s' := by
    rw [toEReal, toEReal, hv, hw] at h
    cases s <;> cases s' <;> simp [value, signed] at h ⊢
  rw [← ofModel_pack_of_unpack hv, ← ofModel_pack_of_unpack hw, hs]

end CurvePlot.Binary64
