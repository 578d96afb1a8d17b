import CurvePlot.Proofs.Binary64.Fields

/-!
# Canonical significands

A number has many significands and exponents. The **canonical** ones are those that a double's
fields stand for: the significand has 53 digits, or fewer if the exponent is the least there is.
Packing and unpacking gives a canonical number back, unless its exponent is too large for a double,
which makes it an infinity (`unpack_pack_of_le`, `unpack_pack_of_lt`).
-/

namespace CurvePlot.Binary64

open Float.Model Float.Model.UnpackedFloat

/-- A significand and an exponent are **canonical** if they are what rounding would make of
them. -/
structure IsCanonical (m : Nat) (e : Int) : Prop where
  pos : 0 < m
  target : format.targetExponent (totalExponent m e) = e

theorem targetExponent_eq_max (t : Int) : format.targetExponent t = max (t - 53) (-1074) := rfl

theorem targetExponent_eq (m : Nat) (e : Int) :
    format.targetExponent (totalExponent m e) = max (m.log2 + e - 52) (-1074) := by
  rw [targetExponent_eq_max, totalExponent]
  omega

theorem isCanonical_of_log2_eq {m : Nat} {e : Int} (hm : m.log2 = 52) (he : -1074 ≤ e) :
    IsCanonical m e where
  pos := Nat.pos_of_ne_zero fun h => by simp [h] at hm
  target := by
    rw [targetExponent_eq, hm]
    omega

theorem isCanonical_of_lt {m : Nat} (hpos : 0 < m) (hm : m < 2 ^ 52) : IsCanonical m (-1074) where
  pos := hpos
  target := by
    have := (Nat.log2_lt (Nat.ne_of_gt hpos)).mpr hm
    rw [targetExponent_eq]
    omega

theorem isCanonical_of_bounds {m : Nat} {e : Int} (hpos : 0 < m) (hm : m < 2 ^ 53)
    (he : -1074 ≤ e) (h : -1074 < e → 2 ^ 52 ≤ m) : IsCanonical m e := by
  by_cases hlow : m < 2 ^ 52
  · have he' : e = -1074 := by omega
    exact he' ▸ isCanonical_of_lt hpos hlow
  · exact isCanonical_of_log2_eq ((Nat.log2_eq_iff (Nat.ne_of_gt hpos)).mpr ⟨by omega, hm⟩) he

namespace IsCanonical

variable {m : Nat} {e : Int} (h : IsCanonical m e)
include h

theorem lt : m < 2 ^ 53 := by
  have target := h.target
  rw [targetExponent_eq] at target
  exact (Nat.log2_lt (Nat.ne_of_gt h.pos)).mp (by omega)

theorem le_exponent : -1074 ≤ e := by
  have target := h.target
  rw [targetExponent_eq] at target
  omega

/-- Fewer than 53 digits come with the least exponent only. -/
theorem log2_eq_or : m.log2 = 52 ∨ m < 2 ^ 52 ∧ e = -1074 := by
  have target := h.target
  rw [targetExponent_eq] at target
  by_cases hlog : m.log2 = 52
  · exact .inl hlog
  · exact .inr ⟨(Nat.log2_lt (Nat.ne_of_gt h.pos)).mp (by omega), by omega⟩

theorem two_pow_le (he : e ≠ -1074) : 2 ^ 52 ≤ m := by
  obtain hlog | ⟨-, h'⟩ := h.log2_eq_or
  · rw [← hlog]
    exact Nat.log2_self_le (Nat.ne_of_gt h.pos)
  · exact absurd h' he

end IsCanonical

/-! ### Shifted significands -/

theorem log2_shiftLeft {m : Nat} (hm : 0 < m) (j : Nat) : (m <<< j).log2 = m.log2 + j := by
  induction j generalizing m with
  | zero => rfl
  | succ j ih =>
    rw [Nat.shiftLeft_succ_inside, ih (by omega), Nat.log2_two_mul (by omega)]
    omega

theorem totalExponent_shiftLeft {m : Nat} (hm : 0 < m) (e : Int) (j : Nat) :
    totalExponent (m <<< j) (e - j) = totalExponent m e := by
  unfold totalExponent
  rw [log2_shiftLeft hm]
  omega

theorem shiftRight_exact (m j : Nat) :
    ExtendedMantissa.ofMantissaAndAccuracy (m <<< j) .exact >>> j =
      ExtendedMantissa.ofMantissaAndAccuracy m .exact := by
  change j.repeat ExtendedMantissa.shiftRightOne _ = _
  induction j generalizing m with
  | zero => rfl
  | succ j ih =>
    rw [Nat.repeat, Nat.shiftLeft_succ_inside, ih]
    simp [ExtendedMantissa.shiftRightOne, ExtendedMantissa.ofMantissaAndAccuracy]

theorem shiftToTargetExponent_shiftLeft {m : Nat} {e : Int} (h : IsCanonical m e) (j : Nat) :
    shiftToTargetExponent format (m <<< j) (e - j) .exact =
      (ExtendedMantissa.ofMantissaAndAccuracy m .exact, e) := by
  have amount : (e - (e - j)).toNat = j := by omega
  unfold shiftToTargetExponent shiftToExponent
  simp only [totalExponent_shiftLeft h.pos, h.target, amount, shiftRight_exact]
  rw [Int.sub_add_cancel]

/-- Rounding shifts twice, since the first shift may be followed by a carry. If a **canonical**
number, shifted, is left after the first shift, that number is the result. -/
theorem roundWithAccuracy_of_shiftToTargetExponent {n : Nat} {f : Int} {acc : Accuracy}
    {em : ExtendedMantissa} {t : Int} (first : shiftToTargetExponent format n f acc = (em, t))
    {m : Nat} {e : Int} (h : IsCanonical m e) {j : Nat} (hm : em.roundedMantissa = m <<< j)
    (he : t = e - j) (s : Sign) :
    roundWithAccuracy format s n f acc = .finite s m e h.pos := by
  unfold roundWithAccuracy
  simp only [first, hm, he, shiftToTargetExponent_shiftLeft h j]
  exact dif_neg (Nat.ne_of_gt h.pos)

/-- **Rounding** a canonical number that was shifted gives the canonical number. -/
theorem roundWithAccuracy_shiftLeft {m : Nat} {e : Int} (h : IsCanonical m e) (s : Sign)
    (j : Nat) :
    roundWithAccuracy format s (m <<< j) (e - j) .exact = .finite s m e h.pos :=
  roundWithAccuracy_of_shiftToTargetExponent (j := 0) (shiftToTargetExponent_shiftLeft h j) h rfl
    (Int.sub_zero e).symm s

/-! ### Packing -/

/-- A canonical number has fields, as long as its exponent is that of a double. -/
theorem exists_fromFields {m : Nat} {e : Int} (h : IsCanonical m e) (he : e ≤ 971) :
    ∃ e' m', ∀ s, fromFields s e' m' = .finite s m e h.pos := by
  have hexp := h.le_exponent
  have hlt := h.lt
  obtain hlog | ⟨hm, rfl⟩ := h.log2_eq_or
  · -- the field of the significand is without its first digit
    have hle : 2 ^ 52 ≤ m := (Nat.le_log2 (Nat.ne_of_gt h.pos)).mp (Nat.le_of_eq hlog.symm)
    have he' : (BitVec.ofNat 11 (e + 1075).toNat).toNat = (e + 1075).toNat :=
      Nat.mod_eq_of_lt (by omega)
    have hm' : Nat.pow 2 52 + (BitVec.ofNat 52 m).toNat = m := by
      change 2 ^ 52 + m % 2 ^ 52 = m
      omega
    have hmax : BitVec.ofNat 11 (e + 1075).toNat ≠ -1#_ := fun h => by
      rw [h] at he'
      change 2047 = _ at he'
      omega
    have hmin : BitVec.ofNat 11 (e + 1075).toNat ≠ 0#_ := fun h => by
      rw [h] at he'
      change 0 = _ at he'
      omega
    refine ⟨BitVec.ofNat 11 (e + 1075).toNat, BitVec.ofNat 52 m, fun s => ?_⟩
    rw [fromFields, if_neg hmax, if_neg hmin]
    simp only [he', hm']
    congr 1
    omega
  · have hm' : (BitVec.ofNat 52 m).toNat = m := Nat.mod_eq_of_lt hm
    have hpos := h.pos
    have hzero : BitVec.ofNat 52 m ≠ 0#_ := fun h => by
      rw [h] at hm'
      change 0 = _ at hm'
      omega
    refine ⟨0#_, BitVec.ofNat 52 m, fun s => ?_⟩
    rw [fromFields, if_neg (by decide), if_pos rfl, dif_neg hzero]
    simp only [hm']

/-- **Packing a canonical number** loses nothing, as long as its exponent is that of a double. -/
theorem unpack_pack_of_le {m : Nat} {e : Int} (h : IsCanonical m e) (s : Sign) (he : e ≤ 971) :
    unpack format (UnpackedFloat.pack format (.finite s m e h.pos)) = .finite s m e h.pos := by
  obtain ⟨e', m', fields⟩ := exists_fromFields h he
  rw [← fields s, unpack_pack_fromFields]

/-- A larger exponent makes it an infinity. -/
theorem unpack_pack_of_lt {m : Nat} {e : Int} (h : IsCanonical m e) (s : Sign) (he : 971 < e) :
    unpack format (UnpackedFloat.pack format (.finite s m e h.pos)) = .infinity s := by
  have bias : (format.exponentBias : Int) = 1023 := rfl
  unfold UnpackedFloat.pack
  simp only [bias]
  rw [if_pos (by change 2048 ≤ _; omega)]
  exact unpack_packComponents s _ _

/-- The number that a finite double stands for is canonical. -/
theorem isCanonical_of_unpack {v : Float} {s : Sign} {m : Nat} {e : Int} {hm : 0 < m}
    (h : v.toModel.unpack = .finite s m e hm) : IsCanonical m e ∧ e ≤ 971 := by
  obtain ⟨s', e', m', rfl⟩ := exists_ofFields v
  rw [unpack_ofFields, fromFields] at h
  have hm' : m'.toNat < 2 ^ 52 := m'.isLt
  have he' : e'.toNat < 2048 := e'.isLt
  split at h
  · split at h <;> cases h
  · split at h
    · split at h
      · cases h
      · cases h
        exact ⟨isCanonical_of_lt hm hm', by omega⟩
    · rename_i hmax hmin
      cases h
      have hpos : e'.toNat ≠ 0 := fun h => hmin (BitVec.eq_of_toNat_eq h)
      have hlt : e'.toNat ≠ 2047 := fun h => hmax (BitVec.eq_of_toNat_eq h)
      exact ⟨isCanonical_of_log2_eq (log2_implicit m') (by omega), by omega⟩

end CurvePlot.Binary64
