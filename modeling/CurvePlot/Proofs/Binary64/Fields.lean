import CurvePlot.Binary64
import Mathlib

/-!
# The fields of a double

A double is a sign, an exponent field and a significand field. Arithmetic unpacks the fields
into a number (`fromFields`), computes, and packs the result into fields again. Packing undoes
unpacking except for the fields of a NaN, all of which are the same NaN (`pack_fromFields`).
-/

namespace CurvePlot.Binary64

open Float.Model Float.Model.UnpackedFloat

/-- The format of doubles. -/
abbrev format : Format :=
  Format.binary64

variable (s : Sign) (e : BitVec format.exponentBits) (m : BitVec format.mantissaBitsWithoutImplicit)

/-! ### The number of some fields -/

/-- The **number that some fields stand for**. -/
def fromFields : UnpackedFloat :=
  if e = -1#_ then
    if m = 0#_ then .infinity s else .notANumber
  else if e = 0#_ then
    if h : m = 0#_ then
      .zero s
    else
      .finite s m.toNat (-1074) (by simpa [BitVec.toNat_pos, BitVec.pos_iff_ne_zero])
  else
    .finite s (Nat.pow 2 52 + m.toNat) (e.toNat - 1075) (Nat.lt_add_right _ (by decide))

theorem toNat_implicit_append : (1#1 ++ m).toNat = Nat.pow 2 52 + m.toNat := by
  rw [BitVec.toNat_append, ← Nat.shiftLeft_add_eq_or_of_lt m.isLt]
  rfl

theorem log2_implicit : (Nat.pow 2 52 + m.toNat).log2 = 52 := by
  have hm : m.toNat < 4503599627370496 := m.isLt
  have implicit : Nat.pow 2 52 = 4503599627370496 := rfl
  refine (Nat.log2_eq_iff (by omega)).mpr ⟨Nat.le_add_right _ _, ?_⟩
  change _ < 9007199254740992
  omega

theorem unpack_packComponents :
    UnpackedFloat.unpack format (packComponents format s e m) = fromFields s e m := by
  have bias : (format.exponentBias : Int) + format.mantissaBitsWithoutImplicit = 1075 := rfl
  unfold UnpackedFloat.unpack fromFields
  simp only [bias, unpackSign_packComponents, unpackExponent_packComponents,
    unpackMantissa_packComponents, Sign.ofBitVec_toBitVec]
  -- the exponent field is all ones, or zero, or that of a normal number
  split
  · rfl
  · split
    · rename_i he
      simp only [he]
      rfl
    · congr 1
      exact toNat_implicit_append m

/-- **Packing the number of some fields** gives the fields, unless they are those of a NaN. -/
theorem pack_fromFields (h : e = -1#_ → m = 0#_) :
    UnpackedFloat.pack format (fromFields s e m) = packComponents format s e m := by
  rw [← unpack_packComponents, UnpackedFloat.pack_unpack, if_neg]
  simpa [isNaNBits] using h

theorem unpack_pack_fromFields :
    UnpackedFloat.unpack format (UnpackedFloat.pack format (fromFields s e m)) =
      fromFields s e m := by
  by_cases h : e = -1#_ → m = 0#_
  · rw [pack_fromFields s e m h, unpack_packComponents]
  · -- any NaN is packed as the one NaN there is
    obtain ⟨he, hm⟩ := Classical.not_imp.mp h
    rw [fromFields, if_pos he, if_neg hm]
    exact unpack_packedNaN

/-! ### Doubles by their fields -/

/-- The **double with some fields**. -/
def ofFields : Float :=
  .ofModel (Float.Model.pack (fromFields s e m))

/-- Every double has fields. -/
theorem exists_ofFields (v : Float) : ∃ s e m, v = ofFields s e m := by
  refine ⟨Sign.ofBitVec (@unpackSign format v.toBits.toBitVec),
    @unpackExponent format v.toBits.toBitVec, @unpackMantissa format v.toBits.toBitVec, ?_⟩
  rw [ofFields, ← unpack_packComponents, packComponents_unpackSign_unpackExponent_unpackMantissa]
  exact (Float.ofBits_toBits v).symm

theorem unpack_ofFields : (ofFields s e m).toModel.unpack = fromFields s e m :=
  unpack_pack_fromFields s e m

theorem neg_fromFields : (fromFields s e m).neg = fromFields (-s) e m := by
  unfold fromFields
  split
  · split <;> rfl
  · split
    · split <;> rfl
    · rfl

theorem abs_fromFields : (fromFields s e m).abs = fromFields .positive e m := by
  unfold fromFields
  split
  · split <;> rfl
  · split
    · split <;> rfl
    · rfl

/-- Negation turns the sign over. -/
theorem neg_ofFields : -ofFields s e m = ofFields (-s) e m := by
  change Float.ofModel (Float.Model.pack (ofFields s e m).toModel.unpack.neg) = _
  rw [unpack_ofFields, neg_fromFields]
  rfl

theorem abs_ofFields : (ofFields s e m).abs = ofFields .positive e m := by
  change Float.ofModel (Float.Model.pack (ofFields s e m).toModel.unpack.abs) = _
  rw [unpack_ofFields, abs_fromFields]
  rfl

theorem isFinite_ofFields : (ofFields s e m).isFinite = decide (e ≠ -1#_) := by
  change (ofFields s e m).toModel.unpack.isFinite = _
  rw [unpack_ofFields, fromFields]
  split
  · split <;> simp_all [UnpackedFloat.isFinite]
  · split
    · split <;> simp_all [UnpackedFloat.isFinite]
    · simp_all [UnpackedFloat.isFinite]

/-- The bits of a double with given fields, unless they are those of a NaN. -/
theorem toBits_ofFields (h : e = -1#_ → m = 0#_) :
    (ofFields s e m).toBits = UInt64.ofBitVec (packComponents format s e m) := by
  rw [← pack_fromFields s e m h]
  rfl

theorem toNat_packComponents : (packComponents format s e m).toNat =
    (s.toBitVec.toNat * 2048 + e.toNat) * 4503599627370496 + m.toNat := by
  unfold packComponents
  rw [BitVec.toNat_append, BitVec.toNat_append, ← Nat.shiftLeft_add_eq_or_of_lt e.isLt,
    ← Nat.shiftLeft_add_eq_or_of_lt m.isLt, Nat.shiftLeft_eq, Nat.shiftLeft_eq]
  rfl

variable {e m}

theorem toNat_toBits_ofFields (h : e = -1#_ → m = 0#_) : (ofFields s e m).toBits.toNat =
    (s.toBitVec.toNat * 2048 + e.toNat) * 4503599627370496 + m.toNat := by
  rw [toBits_ofFields s e m h]
  exact toNat_packComponents s e m

theorem signBit_ofFields (h : e = -1#_ → m = 0#_) :
    signBit (ofFields s e m) = (s.toBitVec == 1#1) := by
  have he : e.toNat < 2048 := e.isLt
  have hm : m.toNat < 4503599627370496 := m.isLt
  -- the shift leaves nothing but the sign field
  have shifted : ((ofFields s e m).toBits >>> 63).toNat = s.toBitVec.toNat := by
    rw [UInt64.toNat_shiftRight, toNat_toBits_ofFields s h, Nat.shiftRight_eq_div_pow]
    change _ / 9223372036854775808 = _
    omega
  unfold signBit
  cases s with
  | negative =>
    have : (ofFields .negative e m).toBits >>> 63 = 1 := UInt64.toNat_inj.mp shifted
    rw [this]
    rfl
  | positive =>
    have : (ofFields .positive e m).toBits >>> 63 = 0 := UInt64.toNat_inj.mp shifted
    rw [this]
    rfl

theorem magnitude_ofFields (he : e ≠ -1#_) : magnitude (ofFields s e m) =
    if e = 0#_ then ⟨m.toNat, -1074, false⟩
    else ⟨Nat.pow 2 52 + m.toNat, e.toNat - 1075, m.toNat = 0 && 1 < e.toNat⟩ := by
  have he : e.toNat < 2048 := e.isLt
  have hm : m.toNat < 4503599627370496 := m.isLt
  have h : e = -1#_ → m = 0#_ := fun h => absurd h ‹_›
  -- masks are remainders, and what they leave is one field each
  have biased : (((ofFields s e m).toBits >>> 52) &&& 0x7FF).toNat = e.toNat := by
    rw [UInt64.toNat_and, UInt64.toNat_shiftRight, toNat_toBits_ofFields s h,
      Nat.shiftRight_eq_div_pow]
    change _ / 4503599627370496 &&& (2 ^ 11 - 1) = _
    rw [Nat.and_two_pow_sub_one_eq_mod]
    change _ % 2048 = _
    omega
  have fraction : ((ofFields s e m).toBits &&& 0xFFFFFFFFFFFFF).toNat = m.toNat := by
    rw [UInt64.toNat_and, toNat_toBits_ofFields s h]
    change _ &&& (2 ^ 52 - 1) = _
    rw [Nat.and_two_pow_sub_one_eq_mod]
    change _ % 4503599627370496 = _
    omega
  unfold magnitude
  simp only [biased, fraction]
  by_cases hz : e = 0#_
  · rw [if_pos hz, if_pos (by rw [hz]; rfl)]
  · have hnz : ¬e.toNat = 0 := fun h => hz (BitVec.eq_of_toNat_eq h)
    rw [if_neg hz, if_neg hnz]

/-! ### Signs -/

/-- Negation is exact: it undoes itself, even on a NaN. -/
theorem neg_neg_eq (v : Float) : - -v = v := by
  obtain ⟨s, e, m, rfl⟩ := exists_ofFields v
  rw [neg_ofFields, neg_ofFields]
  cases s <;> rfl

theorem isFinite_abs (v : Float) : v.abs.isFinite = v.isFinite := by
  obtain ⟨s, e, m, rfl⟩ := exists_ofFields v
  rw [abs_ofFields, isFinite_ofFields, isFinite_ofFields]

theorem fields_of_isFinite {s : Sign} {e : BitVec format.exponentBits}
    {m : BitVec format.mantissaBitsWithoutImplicit} (h : (ofFields s e m).isFinite = true) :
    e ≠ -1#_ := by
  simpa [isFinite_ofFields] using h

/-- A finite double whose sign bit is clear is its own absolute value. -/
theorem abs_of_signBit_false {v : Float} (finite : v.isFinite = true) (h : signBit v = false) :
    v.abs = v := by
  obtain ⟨s, e, m, rfl⟩ := exists_ofFields v
  have he := fields_of_isFinite finite
  rw [signBit_ofFields s fun h => absurd h he] at h
  cases s with
  | negative => cases h
  | positive => exact abs_ofFields .positive e m

/-- A finite double whose sign bit is set is the negation of its absolute value. -/
theorem abs_of_signBit {v : Float} (finite : v.isFinite = true) (h : signBit v = true) :
    v.abs = -v := by
  obtain ⟨s, e, m, rfl⟩ := exists_ofFields v
  have he := fields_of_isFinite finite
  rw [signBit_ofFields s fun h => absurd h he] at h
  cases s with
  | negative => rw [abs_ofFields, neg_ofFields]; rfl
  | positive => cases h

theorem isNaN_of_isFinite {v : Float} (finite : v.isFinite = true) : v.isNaN = false := by
  change v.toModel.unpack.isFinite = true at finite
  change v.toModel.unpack.isNaN = false
  cases h : v.toModel.unpack <;> simp_all [UnpackedFloat.isFinite, UnpackedFloat.isNaN]

end CurvePlot.Binary64
