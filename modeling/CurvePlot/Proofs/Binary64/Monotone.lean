import CurvePlot.Proofs.Binary64.Order

/-!
# Monotone operations on doubles

Rounding is monotone, so the operations of arithmetic are wherever the exact ones are, as long as
nothing overflows. Overflow is no exception if an infinity is taken for a result like any other: in
the extended reals the upper infinity is the sum of itself with all but the lower one, and the product
of itself with all that is positive, and so it is with doubles. Hence a difference, and a product of
positive factors, is that of the extended reals, **rounded** (`isNearest_sub`, `isNearest_mul`).

So a difference does not decrease when its first operand grows and its second one shrinks
(`sub_le_sub_of_lt`), nor does a product of positive factors when one of them grows
(`mul_le_mul_of_pos`). The count that a double is rounded up to is monotone, too (`ceilCount_mono`).
-/

namespace CurvePlot.Binary64

open Float.Model Float.Model.UnpackedFloat

/-! ### Comparing values -/

/-- A NaN is not comparable with anything. -/
theorem isNaN_of_le {v w : Float} (h : v ≤ w) : v.isNaN = false ∧ w.isNaN = false := by
  rw [le_iff_compare] at h
  constructor
  · refine Bool.eq_false_iff.mpr fun hv => ?_
    rw [compare_of_isNaN (.inl hv)] at h
    cases h
  · refine Bool.eq_false_iff.mpr fun hw => ?_
    rw [compare_of_isNaN (.inr hw)] at h
    cases h

theorem toEReal_mono {v w : Float} (h : v ≤ w) : toEReal v ≤ toEReal w := by
  obtain ⟨hv, hw⟩ := isNaN_of_le h
  exact (le_iff hv hw).mp h

theorem toEReal_strictMono {v w : Float} (h : v < w) : toEReal v < toEReal w := by
  obtain ⟨hv, hw⟩ := isNaN_of_lt h
  exact (lt_iff hv hw).mp h

theorem toEReal_pos {v : Float} (h : 0.0 < v) : 0 < toEReal v := by
  rw [← toEReal_zero]
  exact toEReal_strictMono h

/-- **Rounding is monotone**, to infinities even. -/
theorem IsNearest.le {v w : Float} {x y : EReal} (hv : IsNearest v x) (hw : IsNearest w y)
    (h : x ≤ y) : v ≤ w :=
  (le_iff hv.isNaN hw.isNaN).mpr (hv.toEReal_le hw h)

/-! ### The upper infinity -/

theorem isNaN_of_toEReal_ne_zero {v : Float} (h : toEReal v ≠ 0) : v.isNaN = false :=
  Bool.eq_false_iff.mpr fun hnan => h (toEReal_of_isNaN hnan)

theorem isNearest_top {v : Float} (h : toEReal v = ⊤) : IsNearest v ⊤ := by
  rw [← h]
  exact isNearest_toEReal (isNaN_of_toEReal_ne_zero (h ▸ EReal.top_ne_zero))

/-- The **upper infinity** is the only double of its value. -/
theorem unpack_of_toEReal_eq_top {v : Float} (h : toEReal v = ⊤) :
    v.toModel.unpack = .infinity .positive := by
  have hnan : v.isNaN = false := isNaN_of_toEReal_ne_zero (h ▸ EReal.top_ne_zero)
  have hfin : v.isFinite = false := by
    refine Bool.eq_false_iff.mpr fun hfin => ?_
    exact ((isFinite_iff v).mp hfin).2.2 h
  obtain ⟨s, hv⟩ := unpack_of_not_isFinite hnan hfin
  cases s with
  | negative =>
    rw [toEReal, hv, value, signed, EReal.neg_top] at h
    exact absurd h bot_ne_top
  | positive => exact hv

/-- What is positive is the upper infinity, or finite and of positive sign. -/
theorem unpack_of_pos {v : Float} (h : 0.0 < v) : v.toModel.unpack = .infinity .positive ∨
    ∃ m e, ∃ hm : 0 < m, v.toModel.unpack = .finite .positive m e hm := by
  have hpos := toEReal_pos h
  obtain ⟨s, hv⟩ | ⟨s, hv⟩ | ⟨s, m, e, hcan, hv⟩ := unpack_cases (isNaN_of_lt h).2
  · cases s with
    | negative =>
      rw [toEReal, hv, value, signed, EReal.neg_top] at hpos
      exact absurd hpos not_lt_bot
    | positive => exact .inl hv
  · rw [toEReal, hv] at hpos
    exact absurd rfl hpos.ne
  · cases s with
    | negative =>
      rw [toEReal, hv, value, signed, EReal.coe_pos, neg_pos] at hpos
      exact absurd hcan.scaled_pos hpos.not_gt
    | positive => exact .inr ⟨m, e, hcan.pos, hv⟩

/-- A product of positive factors is the upper infinity if one of them is. -/
theorem toEReal_mul_eq_top {a b : Float} (ha : 0.0 < a) (hb : 0.0 < b)
    (h : toEReal a = ⊤ ∨ toEReal b = ⊤) : toEReal (a * b) = ⊤ := by
  have htop (v : Float) (hv : v = .ofModel (Float.Model.pack (.infinity .positive))) :
      toEReal v = ⊤ := by
    rw [hv, toEReal, unpack_pack_infinity]
    rfl
  apply htop
  rw [mul_eq]
  obtain h | h := h
  · rw [unpack_of_toEReal_eq_top h]
    obtain hub | ⟨m, e, hm, hub⟩ := unpack_of_pos hb <;> rw [hub] <;> rfl
  · rw [unpack_of_toEReal_eq_top h]
    obtain hua | ⟨m, e, hm, hua⟩ := unpack_of_pos ha <;> rw [hua] <;> rfl

/-! ### Differences and products -/

/-- A **difference** is the difference in the extended reals, rounded, if the first operand is not the
lower infinity and the second not the upper one. -/
theorem isNearest_sub {a b : Float} (ha : a.isNaN = false) (hb : b.isNaN = false)
    (ha' : toEReal a ≠ ⊥) (hb' : toEReal b ≠ ⊤) : IsNearest (a - b) (toEReal a - toEReal b) := by
  rw [sub_eq_add, sub_eq_add_neg, ← toEReal_neg]
  refine isNearest_add ha ((isNaN_neg b).trans hb) (.inl ha') (.inr ?_)
  rwa [toEReal_neg, ne_eq, EReal.neg_eq_bot_iff]

/-- A **product** of positive factors is the product in the extended reals, rounded. -/
theorem isNearest_mul {a b : Float} (ha : 0.0 < a) (hb : 0.0 < b) :
    IsNearest (a * b) (toEReal a * toEReal b) := by
  have hpos := toEReal_pos ha
  have hpos' := toEReal_pos hb
  by_cases htop : toEReal a = ⊤
  · rw [htop, EReal.top_mul_of_pos hpos']
    exact isNearest_top (toEReal_mul_eq_top ha hb (.inl htop))
  by_cases htop' : toEReal b = ⊤
  · rw [htop', EReal.mul_top_of_pos hpos]
    exact isNearest_top (toEReal_mul_eq_top ha hb (.inr htop'))
  · have hfin : a.isFinite = true :=
      (isFinite_iff a).mpr ⟨(isNaN_of_lt ha).2, hpos.ne_bot, htop⟩
    have hfin' : b.isFinite = true :=
      (isFinite_iff b).mpr ⟨(isNaN_of_lt hb).2, hpos'.ne_bot, htop'⟩
    rw [← coe_toReal hfin, ← coe_toReal hfin', ← EReal.coe_mul]
    exact (isRounded_mul hfin hfin').isNearest

/-- **A positive difference does not decrease** when its first operand grows and its second one
shrinks, to an infinity even. -/
theorem sub_le_sub_of_lt {a a' b b' : Float} (h : b < a) (ha : a ≤ a') (hb : b' ≤ b) :
    a - b ≤ a' - b' := by
  have hlt := toEReal_strictMono h
  have hle := toEReal_mono ha
  have hle' := toEReal_mono hb
  have hdiff : IsNearest (a - b) (toEReal a - toEReal b) :=
    isNearest_sub (isNaN_of_le ha).1 (isNaN_of_le hb).2 hlt.ne_bot hlt.ne_top
  have hdiff' : IsNearest (a' - b') (toEReal a' - toEReal b') :=
    isNearest_sub (isNaN_of_le ha).2 (isNaN_of_le hb).1 (hlt.trans_le hle).ne_bot
      (hle'.trans_lt hlt).ne_top
  exact hdiff.le hdiff' (EReal.sub_le_sub hle hle')

/-- **A product of positive factors does not decrease** when one of them grows. -/
theorem mul_le_mul_of_pos {a a' b : Float} (ha : 0.0 < a) (h : a ≤ a') (hb : 0.0 < b) :
    a * b ≤ a' * b := by
  have hle := toEReal_mono h
  have ha' : 0.0 < a' := by
    rw [lt_iff isNaN_zero (isNaN_of_le h).2, toEReal_zero]
    exact (toEReal_pos ha).trans_le hle
  exact (isNearest_mul ha hb).le (isNearest_mul ha' hb)
    (mul_le_mul_of_nonneg_right hle (toEReal_pos hb).le)

/-! ### Counts -/

theorem saturatingCeil_mono : Monotone saturatingCeil := by
  intro x y h
  have hle (z : EReal) : saturatingCeil z ≤ maxCount.toNat := by
    rw [saturatingCeil]
    split_ifs
    · exact Nat.le_refl _
    · exact Nat.min_le_right _ _
  rcases le_or_gt x 0 with hneg | hpos
  · rw [saturatingCeil_of_nonpos hneg]
    exact Nat.zero_le _
  by_cases htop : y = ⊤
  · rw [htop, saturatingCeil, saturatingCeil, if_pos rfl]
    exact hle x
  · have hx : x ≠ ⊤ := (h.trans_lt (lt_top_iff_ne_top.mpr htop)).ne
    have hreal : x.toReal ≤ y.toReal := EReal.toReal_le_toReal h hpos.ne_bot htop
    rw [saturatingCeil, saturatingCeil, if_neg hx, if_neg htop]
    exact min_le_min_right _ (Nat.ceil_mono hreal)

/-- **The count that a double is rounded up to** does not decrease when the double grows. -/
theorem ceilCount_mono {v w : Float} (h : v ≤ w) : ceilCount v ≤ ceilCount w := by
  rw [UInt64.le_iff_toNat_le, toNat_ceilCount, toNat_ceilCount]
  exact saturatingCeil_mono (toEReal_mono h)

end CurvePlot.Binary64
