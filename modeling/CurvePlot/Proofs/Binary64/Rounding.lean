import Mathlib

/-!
# Rounding reals to doubles

The doubles near a real number are the multiples of a power of two, the **last place**, which grows
with the number and is never below `2 ^ -1074`. A real is rounded to the nearest multiple of its last
place, to the even one of two that are equally near, and to an infinity from `2 ^ 1024` on. Nothing
is said about doubles here; the values of doubles are the extended reals that this rounding leaves as
they are.

The main fact is that rounding is **monotone** (`nearest_mono`). Where two reals have the same last
place this is so since rounding to integers is; otherwise there is a power of two between them. On the
extended reals, where an infinity is left as it is, rounding is monotone still (`nearestExtended_mono`).
-/

namespace CurvePlot.Binary64

/-! ### Nearest integers -/

/-- The **nearest integer**, and the even one of two that are equally near. -/
noncomputable def roundEven (x : ℝ) : ℤ :=
  if 2 * Int.fract x < 1 then ⌊x⌋
  else if 1 < 2 * Int.fract x then ⌊x⌋ + 1
  else ⌊x⌋ + ⌊x⌋ % 2

theorem floor_le_roundEven (x : ℝ) : ⌊x⌋ ≤ roundEven x := by
  unfold roundEven
  split_ifs <;> omega

theorem roundEven_le_floor_add_one (x : ℝ) : roundEven x ≤ ⌊x⌋ + 1 := by
  unfold roundEven
  split_ifs <;> omega

@[simp] theorem roundEven_intCast (n : ℤ) : roundEven n = n := by
  simp [roundEven]

theorem roundEven_mono : Monotone roundEven := by
  intro x y h
  rcases (Int.floor_le_floor h).lt_or_eq with hlt | heq
  · -- an integer lies between the two
    calc roundEven x ≤ ⌊x⌋ + 1 := roundEven_le_floor_add_one x
      _ ≤ ⌊y⌋ := hlt
      _ ≤ roundEven y := floor_le_roundEven y
  · have hfract : Int.fract x ≤ Int.fract y := by
      rw [Int.fract, Int.fract, heq]
      linarith
    unfold roundEven
    rw [heq]
    split_ifs <;> first | omega | (exfalso; linarith)

/-! ### Last places -/

/-- The exponent of the **last place** of the doubles near a positive real. -/
noncomputable def lastPlace (x : ℝ) : ℤ :=
  max (Int.log 2 x - 52) (-1074)

theorem lastPlace_mono {x y : ℝ} (hx : 0 < x) (h : x ≤ y) : lastPlace x ≤ lastPlace y :=
  max_le_max_right _ (Int.sub_le_sub_right (Int.log_mono_right hx h) 52)

theorem lt_zpow_lastPlace (x : ℝ) : x < 2 ^ (lastPlace x + 53) := by
  have hlog : x < 2 ^ (Int.log 2 x + 1) := by exact_mod_cast Int.lt_zpow_succ_log_self one_lt_two x
  have hle : Int.log 2 x - 52 ≤ lastPlace x := le_max_left _ _
  exact hlog.trans_le (zpow_le_zpow_right₀ one_le_two (by omega))

theorem zpow_lastPlace_le {x : ℝ} (hx : 0 < x) (h : -1074 < lastPlace x) :
    2 ^ (lastPlace x + 52) ≤ x := by
  have hlast : lastPlace x + 52 = Int.log 2 x := by
    unfold lastPlace at h ⊢
    omega
  rw [hlast]
  exact_mod_cast Int.zpow_log_le_self one_lt_two hx

/-- A real, **rounded to a multiple** of its last place. -/
noncomputable def roundToPlace (x : ℝ) : ℝ :=
  roundEven (x / 2 ^ lastPlace x) * 2 ^ lastPlace x

theorem roundToPlace_zero : roundToPlace 0 = 0 := by
  have hround := roundEven_intCast 0
  rw [Int.cast_zero] at hround
  rw [roundToPlace, zero_div, hround, Int.cast_zero, zero_mul]

theorem roundToPlace_nonneg {x : ℝ} (hx : 0 ≤ x) : 0 ≤ roundToPlace x := by
  have hround : roundEven ((0 : ℤ) : ℝ) ≤ roundEven (x / 2 ^ lastPlace x) :=
    roundEven_mono (by simp only [Int.cast_zero]; positivity)
  rw [roundEven_intCast] at hround
  have hcast : (0 : ℝ) ≤ roundEven (x / 2 ^ lastPlace x) := by exact_mod_cast hround
  unfold roundToPlace
  positivity

theorem zpow_add_natCast (e : ℤ) (n : ℕ) : (2 : ℝ) ^ (e + n) = 2 ^ n * 2 ^ e := by
  rw [zpow_add₀ two_ne_zero, zpow_natCast, mul_comm]

theorem roundEven_le_of_lastPlace (x : ℝ) :
    roundEven (x / 2 ^ lastPlace x) ≤ 2 ^ 53 := by
  have hlt : x ≤ ((2 ^ 53 : ℤ) : ℝ) * 2 ^ lastPlace x := by
    have hsplit := (lt_zpow_lastPlace x).le.trans_eq (zpow_add_natCast (lastPlace x) 53)
    exact_mod_cast hsplit
  have hround := roundEven_mono ((div_le_iff₀ (by positivity)).mpr hlt)
  rwa [roundEven_intCast] at hround

theorem le_roundEven_of_lastPlace {x : ℝ} (hx : 0 < x) (h : -1074 < lastPlace x) :
    2 ^ 52 ≤ roundEven (x / 2 ^ lastPlace x) := by
  have hle : ((2 ^ 52 : ℤ) : ℝ) * 2 ^ lastPlace x ≤ x := by
    have hsplit := (zpow_add_natCast (lastPlace x) 52).symm.trans_le (zpow_lastPlace_le hx h)
    exact_mod_cast hsplit
  have hround := roundEven_mono ((le_div_iff₀ (by positivity)).mpr hle)
  rwa [roundEven_intCast] at hround

theorem roundToPlace_mono {x y : ℝ} (hx : 0 ≤ x) (h : x ≤ y) : roundToPlace x ≤ roundToPlace y := by
  rcases hx.eq_or_lt with rfl | hx
  · rw [roundToPlace_zero]
    exact roundToPlace_nonneg h
  have hy := hx.trans_le h
  rcases (lastPlace_mono hx h).lt_or_eq with hlt | heq
  · -- the power of two where the last place changes lies between the two
    have hbelow : (roundEven (x / 2 ^ lastPlace x) : ℝ) ≤ 2 ^ 53 := by
      exact_mod_cast roundEven_le_of_lastPlace x
    have habove : (2 : ℝ) ^ 52 ≤ roundEven (y / 2 ^ lastPlace y) := by
      exact_mod_cast le_roundEven_of_lastPlace hy ((le_max_right _ _).trans_lt hlt)
    calc roundToPlace x ≤ 2 ^ 53 * 2 ^ lastPlace x := by unfold roundToPlace; gcongr
      _ = 2 ^ 52 * 2 ^ (lastPlace x + 1) := by rw [zpow_add_one₀ two_ne_zero]; ring
      _ ≤ 2 ^ 52 * 2 ^ lastPlace y := by gcongr <;> [exact one_le_two; exact hlt]
      _ ≤ roundToPlace y := by unfold roundToPlace; gcongr
  · unfold roundToPlace
    rw [heq]
    have hround : roundEven (x / 2 ^ lastPlace y) ≤ roundEven (y / 2 ^ lastPlace y) :=
      roundEven_mono (by gcongr)
    gcongr

/-- What has few enough digits is on the grid. -/
theorem roundToPlace_of_lt {m : ℕ} (hm : m < 2 ^ 53) {e : ℤ} (he : -1074 ≤ e) :
    roundToPlace (m * 2 ^ e) = m * 2 ^ e := by
  rcases Nat.eq_zero_or_pos m with rfl | hpos
  · rw [Nat.cast_zero, zero_mul, roundToPlace_zero]
  have hx : (0 : ℝ) < m * 2 ^ e := by positivity
  -- the last place is no higher than the exponent
  have hlast : lastPlace (m * 2 ^ e) ≤ e := by
    refine max_le ?_ he
    have hlog : Int.log 2 ((m : ℝ) * 2 ^ e) < e + 53 := by
      refine (Int.lt_zpow_iff_log_lt one_lt_two hx).mp ?_
      have hm' : (m : ℝ) < 2 ^ 53 := by exact_mod_cast hm
      calc (m : ℝ) * 2 ^ e < 2 ^ 53 * 2 ^ e := by gcongr
        _ = _ := by exact_mod_cast (zpow_add_natCast e 53).symm
    omega
  obtain ⟨k, hk⟩ := Int.le.dest hlast
  have hquot : (m : ℝ) * 2 ^ e / 2 ^ lastPlace (m * 2 ^ e) = ((m * 2 ^ k : ℤ) : ℝ) := by
    rw [div_eq_iff (by positivity)]
    conv_lhs => rw [← hk, zpow_add_natCast]
    push_cast
    ring
  unfold roundToPlace
  rw [hquot, roundEven_intCast, ← hquot]
  field_simp

/-- The real with some significand and some exponent. -/
noncomputable def scaled (m : ℕ) (e : ℤ) : ℝ :=
  m * 2 ^ e

/-! ### Overflow -/

/-- A real that is not negative, **rounded to a double**. -/
noncomputable def roundMagnitude (x : ℝ) : EReal :=
  if 2 ^ (1024 : ℤ) ≤ roundToPlace x then ⊤ else roundToPlace x

/-- A real, **rounded to a double**. -/
noncomputable def nearest (x : ℝ) : EReal :=
  if 0 ≤ x then roundMagnitude x else -roundMagnitude (-x)

theorem roundMagnitude_nonneg {x : ℝ} (hx : 0 ≤ x) : 0 ≤ roundMagnitude x := by
  unfold roundMagnitude
  split_ifs
  · exact le_top
  · exact_mod_cast roundToPlace_nonneg hx

theorem roundMagnitude_mono {x y : ℝ} (hx : 0 ≤ x) (h : x ≤ y) :
    roundMagnitude x ≤ roundMagnitude y := by
  have hround := roundToPlace_mono hx h
  unfold roundMagnitude
  split_ifs with hx' hy'
  · exact le_rfl
  · exact absurd (hx'.trans hround) hy'
  · exact le_top
  · exact_mod_cast hround

theorem nearest_of_nonneg {x : ℝ} (hx : 0 ≤ x) : nearest x = roundMagnitude x :=
  if_pos hx

theorem mul_zpow_lt {m : ℕ} (hm : m < 2 ^ 53) {e : ℤ} (he : e ≤ 971) :
    (m : ℝ) * 2 ^ e < 2 ^ (1024 : ℤ) := by
  have hm' : (m : ℝ) < 2 ^ 53 := by exact_mod_cast hm
  calc (m : ℝ) * 2 ^ e < 2 ^ 53 * 2 ^ e := by gcongr
    _ ≤ 2 ^ 53 * 2 ^ (971 : ℤ) := by gcongr; exact one_le_two
    _ = 2 ^ (1024 : ℤ) := (zpow_add_natCast 971 53).symm

theorem le_mul_zpow {m : ℕ} (hm : 2 ^ 52 ≤ m) {e : ℤ} (he : 971 < e) :
    2 ^ (1024 : ℤ) ≤ (m : ℝ) * 2 ^ e := by
  have hm' : (2 : ℝ) ^ 52 ≤ m := by exact_mod_cast hm
  have he' : (972 : ℤ) ≤ e := he
  calc (2 : ℝ) ^ (1024 : ℤ) = 2 ^ 52 * 2 ^ (972 : ℤ) := zpow_add_natCast 972 52
    _ ≤ m * 2 ^ e := by gcongr; exact one_le_two

theorem roundMagnitude_of_lt {m : ℕ} (hm : m < 2 ^ 53) {e : ℤ} (he : -1074 ≤ e) (he' : e ≤ 971) :
    roundMagnitude (m * 2 ^ e) = ((m * 2 ^ e : ℝ) : EReal) := by
  rw [roundMagnitude, roundToPlace_of_lt hm he, if_neg (mul_zpow_lt hm he').not_ge]

theorem nearest_zero : nearest 0 = 0 := by
  have h := roundMagnitude_of_lt (m := 0) (e := 0) (by norm_num) (by norm_num) (by norm_num)
  simpa [nearest] using h

theorem nearest_neg (x : ℝ) : nearest (-x) = -nearest x := by
  rcases lt_trichotomy x 0 with hx | rfl | hx
  · rw [nearest, nearest, if_pos (by linarith), if_neg (by linarith), neg_neg]
  · simp [nearest_zero]
  · rw [nearest, nearest, if_neg (by linarith), if_pos hx.le, neg_neg]

/-- **Rounding is monotone.** -/
theorem nearest_mono : Monotone nearest := by
  intro x y h
  unfold nearest
  split_ifs with hx hy hy
  · exact roundMagnitude_mono hx h
  · exact absurd (hx.trans h) hy
  · calc -roundMagnitude (-x) ≤ 0 :=
          EReal.neg_le_zero.mpr (roundMagnitude_nonneg (by linarith))
      _ ≤ roundMagnitude y := roundMagnitude_nonneg hy
  · exact EReal.neg_le_neg_iff.mpr (roundMagnitude_mono (by linarith) (by linarith))

/-! ### Infinities -/

/-- An extended real, **rounded to a double**. An infinity is a double. -/
noncomputable def nearestExtended (x : EReal) : EReal :=
  if x = ⊥ ∨ x = ⊤ then x else nearest x.toReal

theorem nearestExtended_coe (x : ℝ) : nearestExtended x = nearest x := by
  rw [nearestExtended, if_neg (by simp), EReal.toReal_coe]

theorem nearestExtended_bot : nearestExtended ⊥ = ⊥ :=
  if_pos (.inl rfl)

theorem nearestExtended_top : nearestExtended ⊤ = ⊤ :=
  if_pos (.inr rfl)

theorem nearestExtended_mono : Monotone nearestExtended := by
  intro x y h
  induction y with
  | top =>
    rw [nearestExtended_top]
    exact le_top
  | bot => rw [le_bot_iff.mp h]
  | coe y =>
    induction x with
    | top => exact absurd (top_le_iff.mp h) (EReal.coe_ne_top y)
    | bot =>
      rw [nearestExtended_bot]
      exact bot_le
    | coe x =>
      rw [nearestExtended_coe, nearestExtended_coe]
      exact nearest_mono (EReal.coe_le_coe_iff.mp h)

end CurvePlot.Binary64
