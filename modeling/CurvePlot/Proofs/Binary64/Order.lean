import CurvePlot.Proofs.Binary64.Arithmetic
import Mathlib.Order.Compare

/-!
# The order of doubles

Doubles compare as their values do (`compares_unpack`), so the order of the doubles that are not NaNs
is that of the extended reals (`lt_iff`, `le_iff`); a NaN is not less than anything, nor is anything
less than a NaN (`isNaN_of_lt`).

Two doubles differ by the least double at least, if they differ, so a difference is never rounded to
zero: it is **positive** just if it is one of a greater and a lesser double (`zero_lt_sub_iff`,
`sub_lt_zero_iff`). A product may be rounded to zero, so of its sign only this is known, that the
factors of a positive product are both positive or both negative (`signs_of_zero_lt_mul`). The count
that a double is rounded up to is the **ceiling** of its value, or the largest count where there is
no such count (`toNat_ceilCount`).
-/

namespace CurvePlot.Binary64

open Float.Model Float.Model.UnpackedFloat

/-! ### Comparing -/

/-- What is not a NaN is an infinity, a zero or canonical. -/
theorem unpack_cases {v : Float} (h : v.isNaN = false) :
    (∃ s, v.toModel.unpack = .infinity s) ∨ (∃ s, v.toModel.unpack = .zero s) ∨
      ∃ s m e, ∃ canonical : IsCanonical m e, v.toModel.unpack = .finite s m e canonical.pos := by
  cases hfin : v.isFinite with
  | false => exact .inl (unpack_of_not_isFinite h hfin)
  | true =>
    obtain hzero | ⟨s, m, e, canonical, -, hv⟩ := unpack_of_isFinite hfin
    · exact .inr (.inl hzero)
    · exact .inr (.inr ⟨s, m, e, canonical, hv⟩)

/-- The greater exponent belongs to the greater number. -/
theorem IsCanonical.scaled_lt {m m' : ℕ} {e e' : ℤ} (h : IsCanonical m e) (h' : IsCanonical m' e')
    (he : e < e') : scaled m e < scaled m' e' := by
  have hm : (m : ℝ) < 2 ^ 53 := by exact_mod_cast h.lt
  have hne : e' ≠ -1074 := (h.le_exponent.trans_lt he).ne'
  have hm' : (2 : ℝ) ^ 52 ≤ m' := by exact_mod_cast h'.two_pow_le hne
  have hnext : e + 1 ≤ e' := he
  calc (m : ℝ) * 2 ^ e < 2 ^ 53 * 2 ^ e := by gcongr
    _ = 2 ^ 52 * 2 ^ (e + 1) := by rw [zpow_add_one₀ two_ne_zero]; ring
    _ ≤ m' * 2 ^ e' := by gcongr; exact one_le_two

theorem IsCanonical.scaled_pos {m : ℕ} {e : ℤ} (h : IsCanonical m e) : 0 < scaled m e := by
  have hm : (0 : ℝ) < m := by exact_mod_cast h.pos
  exact mul_pos hm (by positivity)

theorem compares_scaled {m m' : ℕ} {e e' : ℤ} (h : IsCanonical m e) (h' : IsCanonical m' e') :
    ((compare e e').then (compare m m')).Compares (scaled m e) (scaled m' e') := by
  rcases lt_trichotomy e e' with he | rfl | he
  · rw [compare_lt_iff_lt.mpr he]
    exact h.scaled_lt h' he
  · have hpos : (0 : ℝ) < 2 ^ e := by positivity
    rw [compare_eq_iff_eq.mpr rfl]
    rcases lt_trichotomy m m' with hm | rfl | hm
    · rw [compare_lt_iff_lt.mpr hm]
      exact mul_lt_mul_of_pos_right (Nat.cast_lt.mpr hm) hpos
    · rw [compare_eq_iff_eq.mpr rfl]
      exact rfl
    · rw [compare_gt_iff_gt.mpr hm]
      exact mul_lt_mul_of_pos_right (Nat.cast_lt.mpr hm) hpos
  · rw [compare_gt_iff_gt.mpr he]
    exact h'.scaled_lt h he

/-- A finite number lies between the infinities. -/
theorem value_between {u : UnpackedFloat} (h : u.isFinite = true) :
    value (.infinity .negative) < value u ∧ value u < value (.infinity .positive) := by
  have hneg : value (.infinity .negative) = ⊥ := EReal.neg_top
  have hpos : value (.infinity .positive) = ⊤ := rfl
  rw [hneg, hpos]
  cases u with
  | infinity s => exact absurd h (by simp [UnpackedFloat.isFinite])
  | notANumber => exact absurd h (by simp [UnpackedFloat.isFinite])
  | zero s => exact ⟨EReal.bot_lt_zero, EReal.zero_lt_top⟩
  | finite s m e hm => exact ⟨EReal.bot_lt_coe _, EReal.coe_lt_top _⟩

/-- One double is **compared with another as its value is**. -/
def ComparesAsValue (u w : UnpackedFloat) : Prop :=
  ∃ o : Ordering, u.compare w = some o ∧ o.Compares (value u) (value w)

theorem comparesAsValue_infinities (s s' : Sign) :
    ComparesAsValue (.infinity s) (.infinity s') := by
  have hlt := (value_between (u := .zero .positive) rfl).1.trans (value_between rfl).2
  cases s <;> cases s'
  · exact ⟨.eq, rfl, rfl⟩
  · exact ⟨.lt, rfl, hlt⟩
  · exact ⟨.gt, rfl, hlt⟩
  · exact ⟨.eq, rfl, rfl⟩

/-- An infinity and a finite number, both ways. -/
theorem comparesAsValue_infinity (s : Sign) {u : UnpackedFloat} (h : u.isFinite = true) :
    ComparesAsValue (.infinity s) u ∧ ComparesAsValue u (.infinity s) := by
  obtain ⟨above, below⟩ := value_between h
  cases u with
  | notANumber | infinity _ => cases h
  | zero _ | finite _ _ _ _ =>
    cases s
    · exact ⟨⟨.lt, rfl, above⟩, ⟨.gt, rfl, above⟩⟩
    · exact ⟨⟨.gt, rfl, below⟩, ⟨.lt, rfl, below⟩⟩

/-- A zero and another number, both ways. -/
theorem comparesAsValue_zero (s s' : Sign) {m : ℕ} {e : ℤ} (h : IsCanonical m e) :
    ComparesAsValue (.zero s) (.finite s' m e h.pos) ∧
      ComparesAsValue (.finite s' m e h.pos) (.zero s) := by
  have hpos := h.scaled_pos
  cases s'
  · have below := EReal.coe_lt_coe_iff.mpr (neg_lt_zero.mpr hpos)
    exact ⟨⟨.gt, rfl, below⟩, ⟨.lt, rfl, below⟩⟩
  · have above := EReal.coe_lt_coe_iff.mpr hpos
    exact ⟨⟨.lt, rfl, above⟩, ⟨.gt, rfl, above⟩⟩

theorem comparesAsValue_finite (s s' : Sign) {m m' : ℕ} {e e' : ℤ} (h : IsCanonical m e)
    (h' : IsCanonical m' e') :
    ComparesAsValue (.finite s m e h.pos) (.finite s' m' e' h'.pos) := by
  have hpos := h.scaled_pos
  have hpos' := h'.scaled_pos
  have hcompares := compares_scaled h h'
  cases s <;> cases s'
  · -- negative numbers compare the other way round
    have hneg : StrictAnti fun x : ℝ => -x := fun _ _ => neg_lt_neg
    refine ⟨_, rfl, ?_⟩
    rw [Ordering.compares_swap]
    exact EReal.coe_strictMono.compares.mpr (hneg.compares.mpr hcompares)
  · exact ⟨.lt, rfl, EReal.coe_lt_coe_iff.mpr ((neg_lt_zero.mpr hpos).trans hpos')⟩
  · exact ⟨.gt, rfl, EReal.coe_lt_coe_iff.mpr ((neg_lt_zero.mpr hpos').trans hpos)⟩
  · exact ⟨_, rfl, EReal.coe_strictMono.compares.mpr hcompares⟩

/-- **Doubles compare as their values do.** -/
theorem compares_unpack {v w : Float} (hv : v.isNaN = false) (hw : w.isNaN = false) :
    ∃ o : Ordering, v.toModel.unpack.compare w.toModel.unpack = some o ∧
      o.Compares (toEReal v) (toEReal w) := by
  rw [toEReal, toEReal]
  obtain ⟨s, hv⟩ | ⟨s, hv⟩ | ⟨s, m, e, hcan, hv⟩ := unpack_cases hv <;>
    obtain ⟨s', hw⟩ | ⟨s', hw⟩ | ⟨s', m', e', hcan', hw⟩ := unpack_cases hw <;> rw [hv, hw]
  · exact comparesAsValue_infinities s s'
  · exact (comparesAsValue_infinity s rfl).1
  · exact (comparesAsValue_infinity s rfl).1
  · exact (comparesAsValue_infinity s' rfl).2
  · exact ⟨.eq, rfl, rfl⟩
  · exact (comparesAsValue_zero s s' hcan').1
  · exact (comparesAsValue_infinity s' rfl).2
  · exact (comparesAsValue_zero s' s hcan).2
  · exact comparesAsValue_finite s s' hcan hcan'

/-! ### The order of doubles -/

theorem lt_iff_compare (v w : Float) :
    v < w ↔ v.toModel.unpack.compare w.toModel.unpack = some .lt :=
  decide_eq_true_iff.trans beq_iff_eq

theorem le_iff_compare (v w : Float) :
    v ≤ w ↔ (v.toModel.unpack.compare w.toModel.unpack).any (·.isLE) = true :=
  decide_eq_true_iff

theorem lt_iff {v w : Float} (hv : v.isNaN = false) (hw : w.isNaN = false) :
    v < w ↔ toEReal v < toEReal w := by
  obtain ⟨o, ho, hcompares⟩ := compares_unpack hv hw
  rw [lt_iff_compare, ho, Option.some_inj]
  exact hcompares.eq_lt

theorem le_iff {v w : Float} (hv : v.isNaN = false) (hw : w.isNaN = false) :
    v ≤ w ↔ toEReal v ≤ toEReal w := by
  obtain ⟨o, ho, hcompares⟩ := compares_unpack hv hw
  rw [le_iff_compare, ho, Option.any_some, ← not_lt, ← hcompares.eq_gt]
  cases o <;> decide

/-- Nothing is comparable with a NaN. -/
theorem compare_of_isNaN {u w : UnpackedFloat} (h : u.isNaN = true ∨ w.isNaN = true) :
    u.compare w = none := by
  obtain h | h := h
  · cases u <;> first | rfl | exact absurd h (by simp [UnpackedFloat.isNaN])
  · cases w <;> first | (cases u <;> rfl) | exact absurd h (by simp [UnpackedFloat.isNaN])

/-- **A NaN** is neither less nor greater than anything. -/
theorem isNaN_of_lt {v w : Float} (h : v < w) : v.isNaN = false ∧ w.isNaN = false := by
  rw [lt_iff_compare] at h
  refine ⟨Bool.eq_false_iff.mpr fun hv => ?_, Bool.eq_false_iff.mpr fun hw => ?_⟩
  · rw [compare_of_isNaN (.inl hv)] at h
    cases h
  · rw [compare_of_isNaN (.inr hw)] at h
    cases h

theorem not_lt_of_le {v w : Float} (h : v ≤ w) : ¬w < v := by
  intro hlt
  obtain ⟨hw, hv⟩ := isNaN_of_lt hlt
  exact ((le_iff hv hw).mp h).not_gt ((lt_iff hw hv).mp hlt)

/-! ### Signs of differences and products -/

theorem toEReal_zero : toEReal 0.0 = 0 := rfl

theorem isNaN_zero : (0.0 : Float).isNaN = false := rfl

theorem nearest_nonpos {x : ℝ} (h : x ≤ 0) : nearest x ≤ 0 :=
  (nearest_mono h).trans_eq nearest_zero

/-- The finite doubles are multiples of the least one. -/
theorem exists_toReal_eq {v : Float} (h : v.isFinite = true) :
    ∃ n : ℤ, toReal v = n * 2 ^ (-1074 : ℤ) := by
  obtain ⟨m, e, -, he, -, habs⟩ := exists_abs_toReal_eq h
  obtain ⟨k, rfl⟩ := Int.le.dest he
  rw [zpow_add_natCast, ← mul_assoc] at habs
  rcases eq_or_eq_neg_of_abs_eq habs with hv | hv
  · exact ⟨m * 2 ^ k, by rw [hv]; push_cast; ring⟩
  · exact ⟨-(m * 2 ^ k), by rw [hv]; push_cast; ring⟩

/-- A positive multiple of the least double is not rounded to zero. -/
theorem zero_lt_nearest_iff (n : ℤ) : 0 < nearest (n * 2 ^ (-1074 : ℤ)) ↔ 0 < n := by
  have hpos : (0 : ℝ) < 2 ^ (-1074 : ℤ) := by positivity
  constructor
  · intro h
    by_contra hn
    have hn' : (n : ℝ) ≤ 0 := by exact_mod_cast not_lt.mp hn
    exact (nearest_nonpos (mul_nonpos_of_nonpos_of_nonneg hn' hpos.le)).not_gt h
  · intro hn
    have hn' : (1 : ℝ) ≤ n := by exact_mod_cast hn
    have hleast := roundMagnitude_of_lt (m := 1) (e := -1074) (by decide) (by decide) (by decide)
    rw [Nat.cast_one, one_mul] at hleast
    calc (0 : EReal) < ((2 ^ (-1074 : ℤ) : ℝ) : EReal) := EReal.coe_pos.mpr hpos
      _ = nearest (2 ^ (-1074 : ℤ)) := by rw [nearest_of_nonneg hpos.le, hleast]
      _ ≤ nearest (n * 2 ^ (-1074 : ℤ)) := nearest_mono (le_mul_of_one_le_left hpos.le hn')

theorem zero_lt_nearest_sub_iff {a b : Float} (ha : a.isFinite = true) (hb : b.isFinite = true) :
    0 < nearest (toReal a - toReal b) ↔ toEReal b < toEReal a := by
  obtain ⟨n, hn⟩ := exists_toReal_eq ha
  obtain ⟨k, hk⟩ := exists_toReal_eq hb
  have hpos : (0 : ℝ) < 2 ^ (-1074 : ℤ) := by positivity
  have hsub : toReal a - toReal b = (n - k : ℤ) * 2 ^ (-1074 : ℤ) := by
    rw [hn, hk, Int.cast_sub, sub_mul]
  rw [hsub, zero_lt_nearest_iff, Int.sub_pos, ← coe_toReal ha, ← coe_toReal hb,
    EReal.coe_lt_coe_iff, hn, hk, mul_lt_mul_iff_left₀ hpos, Int.cast_lt]

theorem unpack_pack_notANumber :
    (Float.ofModel (Float.Model.pack .notANumber)).toModel.unpack = .notANumber := rfl

theorem unpack_pack_infinity (s : Sign) :
    (Float.ofModel (Float.Model.pack (.infinity s))).toModel.unpack = .infinity s := by
  cases s <;> rfl

/-- A difference with an infinity or a NaN has the sign that the comparison tells, too. -/
theorem compare_sub_of_not_isFinite {u w d : UnpackedFloat}
    (h : ¬(u.isFinite = true ∧ w.isFinite = true))
    (hd : d = (Float.ofModel (Float.Model.pack (UnpackedFloat.sub format u w))).toModel.unpack) :
    ((UnpackedFloat.zero .positive).compare d = some .lt ↔ w.compare u = some .lt) ∧
      (d.compare (.zero .positive) = some .lt ↔ u.compare w = some .lt) := by
  cases u with
  | notANumber =>
    obtain rfl : d = .notANumber := by rw [hd]; cases w <;> exact unpack_pack_notANumber
    cases w <;> exact ⟨Iff.rfl, Iff.rfl⟩
  | infinity s =>
    cases w with
    | notANumber =>
      obtain rfl := hd.trans unpack_pack_notANumber
      exact ⟨Iff.rfl, Iff.rfl⟩
    | infinity s' =>
      subst hd
      cases s <;> cases s' <;> decide
    | zero s' | finite s' m' e' hm' =>
      obtain rfl := hd.trans (unpack_pack_infinity s)
      cases s <;> exact ⟨Iff.rfl, Iff.rfl⟩
  | zero s | finite s m e hm =>
    cases w with
    | notANumber =>
      obtain rfl := hd.trans unpack_pack_notANumber
      exact ⟨Iff.rfl, Iff.rfl⟩
    | infinity s' =>
      obtain rfl := hd.trans (unpack_pack_infinity (-s'))
      cases s' <;> exact ⟨Iff.rfl, Iff.rfl⟩
    | zero s' | finite s' m' e' hm' => exact absurd ⟨rfl, rfl⟩ h

/-- **A difference is positive** just if it is one of a greater and a lesser double. -/
theorem zero_lt_sub_iff (a b : Float) : 0.0 < a - b ↔ b < a := by
  by_cases hfin : a.isFinite = true ∧ b.isFinite = true
  · obtain ⟨ha, hb⟩ := hfin
    have hround := isRounded_sub ha hb
    rw [lt_iff isNaN_zero hround.isNaN, lt_iff (isNaN_of_isFinite hb) (isNaN_of_isFinite ha),
      toEReal_zero, hround.toEReal]
    exact zero_lt_nearest_sub_iff ha hb
  · rw [lt_iff_compare, lt_iff_compare]
    exact (compare_sub_of_not_isFinite hfin rfl).1

/-- **A difference is negative** just if it is one of a lesser and a greater double. -/
theorem sub_lt_zero_iff (a b : Float) : a - b < 0.0 ↔ a < b := by
  by_cases hfin : a.isFinite = true ∧ b.isFinite = true
  · obtain ⟨ha, hb⟩ := hfin
    have hround := isRounded_sub ha hb
    rw [lt_iff hround.isNaN isNaN_zero, lt_iff (isNaN_of_isFinite ha) (isNaN_of_isFinite hb),
      toEReal_zero, hround.toEReal, ← neg_sub, nearest_neg, EReal.neg_lt_zero]
    exact zero_lt_nearest_sub_iff hb ha
  · rw [lt_iff_compare, lt_iff_compare]
    exact (compare_sub_of_not_isFinite hfin rfl).2

/-- A positive infinity is a product of equal signs. -/
theorem signs_of_infinity {s s' : Sign}
    (h : (UnpackedFloat.zero .positive).compare (.infinity (s * s')) = some .lt) :
    s = .positive ∧ s' = .positive ∨ s = .negative ∧ s' = .negative := by
  cases s <;> cases s'
  · exact .inr ⟨rfl, rfl⟩
  · cases h
  · cases h
  · exact .inl ⟨rfl, rfl⟩

/-- The factors of a positive product with an infinity have one sign, too. -/
theorem compare_mul_of_not_isFinite {u w d : UnpackedFloat}
    (h : ¬(u.isFinite = true ∧ w.isFinite = true))
    (hd : d = (Float.ofModel (Float.Model.pack (UnpackedFloat.mul format u w))).toModel.unpack)
    (hlt : (UnpackedFloat.zero .positive).compare d = some .lt) :
    (UnpackedFloat.zero .positive).compare u = some .lt ∧
        (UnpackedFloat.zero .positive).compare w = some .lt ∨
      u.compare (.zero .positive) = some .lt ∧ w.compare (.zero .positive) = some .lt := by
  cases u with
  | notANumber =>
    obtain rfl : d = .notANumber := by rw [hd]; cases w <;> exact unpack_pack_notANumber
    cases hlt
  | infinity s =>
    cases w with
    | notANumber | zero s' =>
      obtain rfl := hd.trans unpack_pack_notANumber
      cases hlt
    | infinity s' | finite s' m' e' hm' =>
      obtain rfl := hd.trans (unpack_pack_infinity (s * s'))
      obtain ⟨rfl, rfl⟩ | ⟨rfl, rfl⟩ := signs_of_infinity hlt
      · exact .inl ⟨rfl, rfl⟩
      · exact .inr ⟨rfl, rfl⟩
  | zero s =>
    cases w with
    | notANumber | infinity s' =>
      obtain rfl := hd.trans unpack_pack_notANumber
      cases hlt
    | zero s' | finite s' m' e' hm' => exact absurd ⟨rfl, rfl⟩ h
  | finite s m e hm =>
    cases w with
    | notANumber =>
      obtain rfl := hd.trans unpack_pack_notANumber
      cases hlt
    | infinity s' =>
      obtain rfl := hd.trans (unpack_pack_infinity (s * s'))
      obtain ⟨rfl, rfl⟩ | ⟨rfl, rfl⟩ := signs_of_infinity hlt
      · exact .inl ⟨rfl, rfl⟩
      · exact .inr ⟨rfl, rfl⟩
    | zero s' | finite s' m' e' hm' => exact absurd ⟨rfl, rfl⟩ h

/-- **The factors of a positive product** are both positive or both negative. -/
theorem signs_of_zero_lt_mul {a b : Float} (h : 0.0 < a * b) :
    0.0 < a ∧ 0.0 < b ∨ a < 0.0 ∧ b < 0.0 := by
  by_cases hfin : a.isFinite = true ∧ b.isFinite = true
  · obtain ⟨ha, hb⟩ := hfin
    have hround := isRounded_mul ha hb
    have hpos (v : Float) (hv : v.isFinite = true) : 0.0 < v ↔ 0 < toReal v := by
      rw [lt_iff isNaN_zero (isNaN_of_isFinite hv), toEReal_zero, ← coe_toReal hv, EReal.coe_pos]
    have hneg (v : Float) (hv : v.isFinite = true) : v < 0.0 ↔ toReal v < 0 := by
      rw [lt_iff (isNaN_of_isFinite hv) isNaN_zero, toEReal_zero, ← coe_toReal hv,
        EReal.coe_neg']
    rw [lt_iff isNaN_zero hround.isNaN, toEReal_zero, hround.toEReal] at h
    have hproduct : 0 < toReal a * toReal b := not_le.mp fun hle => (nearest_nonpos hle).not_gt h
    rw [hpos a ha, hpos b hb, hneg a ha, hneg b hb]
    exact pos_and_pos_or_neg_and_neg_of_mul_pos hproduct
  · simp only [lt_iff_compare] at h ⊢
    exact compare_mul_of_not_isFinite hfin rfl h

/-! ### Ceilings -/

theorem Magnitude.ceil_eq (m : Magnitude) : m.ceil = ⌈scaled m.mantissa m.exponent⌉₊ := by
  unfold Magnitude.ceil scaled
  split_ifs with h
  · obtain ⟨k, hk⟩ := Int.eq_ofNat_of_zero_le h
    rw [hk, Int.toNat_natCast, zpow_natCast]
    exact_mod_cast (Nat.ceil_natCast (R := ℝ) (m.mantissa * 2 ^ k)).symm
  · obtain ⟨k, hk⟩ : ∃ k : ℕ, m.exponent = -k := ⟨(-m.exponent).toNat, by omega⟩
    have hpos : 0 < Nat.pow 2 k := Nat.two_pow_pos k
    have hpos' : (0 : ℝ) < 2 ^ k := by positivity
    rw [hk, Int.neg_neg, Int.toNat_natCast, zpow_neg, zpow_natCast]
    refine eq_of_forall_ge_iff fun n => ?_
    rw [Nat.ceil_le, ← div_eq_mul_inv, div_le_iff₀ hpos', Nat.div_le_iff_le_mul_add_pred hpos]
    rw [Nat.add_le_add_iff_right, Nat.mul_comm]
    exact_mod_cast Iff.rfl

/-- A finite double is its **magnitude** with a sign. -/
theorem abs_toReal_eq_magnitude {v : Float} (h : v.isFinite = true) :
    |toReal v| = scaled (magnitude v).mantissa (magnitude v).exponent := by
  obtain ⟨s, e, m, rfl⟩ := exists_ofFields v
  have he := fields_of_isFinite h
  have hsigned (x : ℝ) (hx : 0 ≤ x) : |signed s x| = x := by
    cases s with
    | negative => rw [signed, abs_neg, abs_of_nonneg hx]
    | positive => rw [signed, abs_of_nonneg hx]
  have hscaled (m : ℕ) (e : ℤ) : 0 ≤ scaled m e := by unfold scaled; positivity
  rw [magnitude_ofFields s he, toReal, toEReal, unpack_ofFields, fromFields, if_neg he]
  split
  · split
    · rename_i hz
      simp [hz, value, scaled]
    · rw [value, EReal.toReal_coe, hsigned _ (hscaled _ _)]
  · rw [value, EReal.toReal_coe, hsigned _ (hscaled _ _)]

/-- The **ceiling** of a value as a count, which is the largest count for what does not fit. -/
noncomputable def saturatingCeil (x : EReal) : ℕ :=
  if x = ⊤ then maxCount.toNat else min ⌈x.toReal⌉₊ maxCount.toNat

theorem toEReal_of_isNaN {v : Float} (h : v.isNaN = true) : toEReal v = 0 := by
  change v.toModel.unpack.isNaN = true at h
  rw [toEReal]
  cases hv : v.toModel.unpack <;> simp_all [UnpackedFloat.isNaN, value]

theorem saturatingCeil_of_nonpos {x : EReal} (h : x ≤ 0) : saturatingCeil x = 0 := by
  have hx : x ≠ ⊤ := (h.trans_lt EReal.zero_lt_top).ne
  have hreal : x.toReal ≤ 0 := EReal.toReal_nonpos h
  rw [saturatingCeil, if_neg hx, Nat.ceil_eq_zero.mpr hreal, Nat.zero_min]

theorem toNat_ofNatClamp (n : ℕ) : (UInt64.ofNatClamp n).toNat = min n maxCount.toNat := by
  unfold UInt64.ofNatClamp
  split_ifs with h <;> rw [UInt64.toNat_ofNatLT]
  · exact (Nat.min_eq_left (Nat.le_sub_one_of_lt h)).symm
  · exact (Nat.min_eq_right ((Nat.sub_le _ 1).trans (not_lt.mp h))).symm

/-- **The count that a double is rounded up to** is the ceiling of its value. -/
theorem toNat_ceilCount (v : Float) : (ceilCount v).toNat = saturatingCeil (toEReal v) := by
  unfold ceilCount
  split_ifs with hpos hfin
  · have hlt := (lt_iff isNaN_zero (isNaN_of_isFinite hfin)).mp hpos
    rw [toEReal_zero, ← coe_toReal hfin, EReal.coe_pos] at hlt
    have hmagnitude := abs_toReal_eq_magnitude hfin
    rw [abs_of_pos hlt] at hmagnitude
    rw [toNat_ofNatClamp, Magnitude.ceil_eq, ← hmagnitude, saturatingCeil,
      if_neg ((isFinite_iff v).mp hfin).2.2, toReal]
  · have hnan := (isNaN_of_lt hpos).2
    have hlt := (lt_iff isNaN_zero hnan).mp hpos
    rw [toEReal_zero] at hlt
    obtain hbot | htop := toEReal_of_not_isFinite hnan (Bool.eq_false_iff.mpr hfin)
    · rw [hbot] at hlt
      exact absurd hlt not_lt_bot
    · rw [saturatingCeil, if_pos htop]
  · refine (saturatingCeil_of_nonpos ?_).symm
    cases hnan : v.isNaN with
    | true => exact (toEReal_of_isNaN hnan).le
    | false =>
      rw [lt_iff isNaN_zero hnan, toEReal_zero, not_lt] at hpos
      exact hpos

end CurvePlot.Binary64
