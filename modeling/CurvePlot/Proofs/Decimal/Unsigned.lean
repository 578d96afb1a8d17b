import CurvePlot.Proofs.Binary64.Fields
import CurvePlot.Token.Scanner

/-!
# Literals have no sign

A literal is read by dividing or multiplying numbers that are not negative, and a number that is not
negative is packed with a clear sign bit (`Decimal.unsigned_toFloat`). So every number in a list of
tokens is finite and has its sign bit clear (`Token.unsigned_of_mem_scan`).
-/

namespace CurvePlot

namespace Binary64

open Float.Model Float.Model.UnpackedFloat

/-- Whether a number has the positive sign, as a NaN and a positive zero do. -/
def Unsigned : UnpackedFloat → Prop
  | .infinity s => s = .positive
  | .notANumber => True
  | .zero s => s = .positive
  | .finite s _ _ _ => s = .positive

theorem unsigned_fromFields (e : BitVec format.exponentBits)
    (m : BitVec format.mantissaBitsWithoutImplicit) : Unsigned (fromFields .positive e m) := by
  unfold fromFields
  split
  · split <;> trivial
  · split
    · split <;> trivial
    · trivial

theorem unsigned_roundWithAccuracy (m : Nat) (e : Int) (accuracy : Accuracy) :
    Unsigned (roundWithAccuracy format .positive m e accuracy) := by
  unfold roundWithAccuracy
  simp only
  split <;> trivial

variable {a b : UnpackedFloat}

theorem Unsigned.mul (ha : Unsigned a) (hb : Unsigned b) : Unsigned (.mul format a b) := by
  cases a <;> cases b <;> simp only [Unsigned] at ha hb <;> subst_vars <;>
    first | trivial | exact unsigned_roundWithAccuracy _ _ _

theorem Unsigned.div (ha : Unsigned a) (hb : Unsigned b) : Unsigned (.div format a b) := by
  cases a <;> cases b <;> simp only [Unsigned] at ha hb <;> subst_vars <;>
    first | trivial | exact unsigned_roundWithAccuracy _ _ _

/-- Packing keeps the sign. -/
theorem Unsigned.unpack_pack (h : Unsigned a) :
    Unsigned (UnpackedFloat.unpack format (UnpackedFloat.pack format a)) := by
  have fields (e : BitVec format.exponentBits) (m : BitVec format.mantissaBitsWithoutImplicit) :
      Unsigned (UnpackedFloat.unpack format (packComponents format .positive e m)) := by
    rw [unpack_packComponents]
    exact unsigned_fromFields e m
  cases a with
  | notANumber => exact fields _ _
  | infinity s | zero s =>
    cases h
    exact fields _ _
  | finite s m e hm =>
    cases h
    unfold UnpackedFloat.pack
    simp only
    split
    · exact fields _ _
    · split <;> exact fields _ _

theorem unsigned_toModel_ofModel_pack (h : Unsigned a) :
    Unsigned (Float.ofModel (Float.Model.pack a)).toModel.unpack :=
  h.unpack_pack

theorem unsigned_ofNat (n : Nat) : Unsigned (UnpackedFloat.ofNat format n) := by
  unfold UnpackedFloat.ofNat UnpackedFloat.ofInt UnpackedFloat.normalize
  split
  · rename_i negative
    rw [Int.compare_eq_lt] at negative
    omega
  · trivial
  · exact unsigned_roundWithAccuracy _ _ _

theorem unsigned_ofScientific (m : Nat) (e : Int) :
    Unsigned (UnpackedFloat.ofScientific format m e) := by
  unfold UnpackedFloat.ofScientific
  split
  · trivial
  · split
    · trivial
    · split
      · trivial
      · split
        · exact Unsigned.mul rfl rfl
        · exact Unsigned.div rfl rfl

/-- A finite number with the positive sign has its sign bit clear. -/
theorem signBit_of_unsigned {v : Float} (finite : v.isFinite = true)
    (h : Unsigned v.toModel.unpack) : signBit v = false := by
  obtain ⟨s, e, m, rfl⟩ := exists_ofFields v
  have he := fields_of_isFinite finite
  rw [signBit_ofFields s fun h => absurd h he]
  rw [unpack_ofFields] at h
  cases s with
  | positive => rfl
  | negative =>
    rw [fromFields, if_neg he] at h
    split at h
    · split at h <;> cases h
    · cases h

theorem unsigned_of_signBit {v : Float} (h : signBit v = false) : Unsigned v.toModel.unpack := by
  obtain ⟨s, e, m, rfl⟩ := exists_ofFields v
  rw [unpack_ofFields]
  by_cases nan : e = -1#_ → m = 0#_
  · rw [signBit_ofFields s nan] at h
    cases s with
    | positive => exact unsigned_fromFields e m
    | negative => cases h
  · obtain ⟨he, hm⟩ := Classical.not_imp.mp nan
    rw [fromFields, if_pos he, if_neg hm]
    trivial

theorem signBit_powersOfTen : ∀ i : Fin Float.exactlyRepresentablePowersOfTen.size,
    signBit Float.exactlyRepresentablePowersOfTen[i] = false := by
  decide +kernel

end Binary64

open Binary64

/-- **What is read has no sign.** -/
theorem Decimal.unsigned_toFloat (d : Decimal) : Unsigned d.toFloat.toModel.unpack := by
  unfold toFloat Float.ofScientific
  split
  · rename_i short
    have hi : d.exponent.natAbs < Float.exactlyRepresentablePowersOfTen.size :=
      Nat.lt_of_le_of_lt short.2 (by decide)
    have power := unsigned_of_signBit (signBit_powersOfTen ⟨d.exponent.natAbs, hi⟩)
    have digits : Unsigned d.digits.toUInt64.toFloat.toModel.unpack :=
      unsigned_toModel_ofModel_pack (unsigned_ofNat _)
    simp only
    split
    · exact unsigned_toModel_ofModel_pack (digits.div power)
    · exact unsigned_toModel_ofModel_pack (digits.mul power)
  · exact unsigned_toModel_ofModel_pack (unsigned_ofScientific _ _)

namespace Token

/-! ### Tokens -/

/-- Whether a token, if it is a number, is finite and has its sign bit clear. -/
def Kind.Unsigned (k : Kind) : Prop :=
  ∀ v, k = .number v → v.isFinite = true ∧ signBit v = false

theorem unsigned_of_numberValue? {literal : List Char} {v : Float}
    (h : numberValue? literal = some v) : v.isFinite = true ∧ signBit v = false := by
  obtain ⟨read, finite⟩ := Option.filter_eq_some_iff.mp h
  obtain ⟨d, -, rfl⟩ := Option.map_eq_some_iff.mp read
  exact ⟨finite, signBit_of_unsigned finite d.unsigned_toFloat⟩

theorem unsigned_ofChar? {c : Char} {k : Kind} (h : Kind.ofChar? c = some k) : k.Unsigned := by
  rintro v rfl
  unfold Kind.ofChar? at h
  split at h <;> cases h

/-- One lexeme. -/
theorem unsigned_lexeme {column : Nat} {c : Char} {rest : List Char} {k : Kind} {more : Nat}
    (h : lexeme column c rest = .ok (k, more)) : k.Unsigned := by
  unfold lexeme at h
  split at h
  · cases h
    exact unsigned_ofChar? ‹_›
  · split at h
    · simp only at h
      split at h
      · cases h
        rintro v ⟨⟩
        exact unsigned_of_numberValue? ‹_›
      · cases h
    · split at h <;> cases h
      rintro v ⟨⟩

theorem unsigned_of_mem_scanFrom {column : Nat} {found tokens : List Token} {cs : List Char}
    (h : scanFrom column found cs = .ok tokens) (hfound : ∀ token ∈ found, token.kind.Unsigned) :
    ∀ token ∈ tokens, token.kind.Unsigned := by
  fun_induction scanFrom column found cs with
  | case1 column found =>
    cases h
    simpa using hfound
  | case2 _ _ _ _ _ ih => exact ih h hfound
  | case3 => cases h
  | case4 column found c rest hsep kind more hlexeme ih =>
    refine ih h (List.forall_mem_cons.mpr ⟨unsigned_lexeme hlexeme, hfound⟩)

/-- **The numbers among the tokens of a text** are finite and have their sign bits clear. -/
theorem unsigned_of_mem_scan {source : String} {tokens : List Token}
    (h : scan source = .ok tokens) : ∀ token ∈ tokens, token.kind.Unsigned :=
  unsigned_of_mem_scanFrom h (by simp)

end Token

end CurvePlot
