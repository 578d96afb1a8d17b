import CurvePlot.Decimal.Shortest
import CurvePlot.Proofs.Binary64.Canonical

/-!
# The exact expansion of a double reads back

Reading a decimal divides its digits by a power of ten and rounds the quotient. For the exact
expansion of a double nothing is lost in either step: the quotient is the significand, shifted
by some places, and rounding shifts it back (`toFloat_expansion`).
-/

namespace CurvePlot.Binary64

open Float.Model Float.Model.UnpackedFloat

/-! ### Dividing what divides evenly -/

theorem log2_mul_le {a b : Nat} (ha : 0 < a) (hb : 0 < b) :
    (a * b).log2 ≤ a.log2 + b.log2 + 1 := by
  refine Nat.le_of_lt_succ ((Nat.log2_lt (Nat.ne_of_gt (Nat.mul_pos ha hb))).mpr ?_)
  calc a * b < 2 ^ (a.log2 + 1) * 2 ^ (b.log2 + 1) :=
        Nat.mul_lt_mul_of_lt_of_lt Nat.lt_log2_self Nat.lt_log2_self
    _ = 2 ^ (a.log2 + b.log2 + 1 + 1) := by
        rw [← Nat.pow_add]
        congr 1
        omega

/-- The digits of a number with `k` places, where there are enough places for it. -/
def digitsOfPlaces (k m : Nat) (e : Int) : Nat :=
  m * Nat.pow 2 (e + k).toNat * Nat.pow 5 k

theorem digitsOfPlaces_shiftLeft {k m : Nat} {e : Int} (enough : 0 ≤ e + k) {j : Nat}
    (hj : 0 ≤ e + j) :
    digitsOfPlaces k m e <<< j = m <<< (e + j).toNat * Nat.pow 10 k := by
  have ten : Nat.pow 10 k = 2 ^ k * 5 ^ k := Nat.mul_pow 2 5 k
  have amount : (e + k).toNat + j = (e + j).toNat + k := by omega
  rw [digitsOfPlaces, ten, Nat.shiftLeft_eq, Nat.shiftLeft_eq]
  simp only [Nat.pow_eq]
  calc m * 2 ^ (e + k).toNat * 5 ^ k * 2 ^ j
      = m * 2 ^ ((e + k).toNat + j) * 5 ^ k := by ring
    _ = m * 2 ^ (e + j).toNat * (2 ^ k * 5 ^ k) := by rw [amount]; ring

theorem log2_digitsOfPlaces_le {k m : Nat} {e : Int} (hm : 0 < m) (enough : 0 ≤ e + k) :
    ((digitsOfPlaces k m e).log2 : Int) - (Nat.pow 10 k).log2 ≤ m.log2 + 1 + e := by
  have hten : 0 < Nat.pow 10 k := Nat.pow_pos (by decide)
  have hdigits : 0 < digitsOfPlaces k m e :=
    Nat.mul_pos (Nat.mul_pos hm (Nat.pow_pos (by decide))) (Nat.pow_pos (by decide))
  have hshift : 0 < m <<< (e + k).toNat := by
    rw [Nat.shiftLeft_eq]
    exact Nat.mul_pos hm (Nat.pow_pos (by decide))
  -- shifted by all places, the digits are a shift of the significand times the power of ten
  have shifted := log2_shiftLeft hdigits k
  rw [digitsOfPlaces_shiftLeft enough enough] at shifted
  have bound := log2_mul_le hshift hten
  rw [log2_shiftLeft hm] at bound
  omega

/-- The quotient of the digits and the power of ten is the significand, shifted. -/
theorem exists_divCore {k m : Nat} {e : Int} (h : IsCanonical m e) (enough : 0 ≤ e + k) :
    ∃ j : Nat, divCore format (digitsOfPlaces k m e) 0 (Nat.pow 10 k) 0 =
      (m <<< j, e - j, .exact) := by
  have hten : 0 < Nat.pow 10 k := Nat.pow_pos (by decide)
  -- the first guess of the exponent is not above the exponent of the number
  have guess : min (0 - 0) (format.targetExponent (totalExponent (digitsOfPlaces k m e) 0 -
      totalExponent (Nat.pow 10 k) 0)) ≤ e := by
    have log2_le := log2_digitsOfPlaces_le h.pos enough
    have target := h.target
    unfold Format.targetExponent totalExponent at target ⊢
    omega
  have nonpos := Int.min_le_left (0 - 0) (format.targetExponent
    (totalExponent (digitsOfPlaces k m e) 0 - totalExponent (Nat.pow 10 k) 0))
  unfold divCore
  generalize min (0 - 0) (format.targetExponent (totalExponent (digitsOfPlaces k m e) 0 -
      totalExponent (Nat.pow 10 k) 0)) = guessed at guess nonpos ⊢
  refine ⟨(e - guessed).toNat, ?_⟩
  have amount : (e + (0 - 0 - guessed).toNat).toNat = (e - guessed).toNat := by omega
  have quotient := digitsOfPlaces_shiftLeft (m := m) (j := (0 - 0 - guessed).toNat) enough
    (by omega)
  rw [amount] at quotient
  simp only [quotient]
  rw [Nat.mul_div_cancel _ hten, Nat.mul_mod_left, Int.toNat_of_nonneg (by omega), Int.sub_sub_self]
  rfl

/-- **Reading** the digits of a canonical number gives the number. -/
theorem ofScientific_digitsOfPlaces {k m : Nat} {e : Int} (h : IsCanonical m e)
    (enough : 0 ≤ e + k) (hk : 0 < k) (hk' : k ≤ 2048) :
    UnpackedFloat.ofScientific format (digitsOfPlaces k m e) (-k) =
      .finite .positive m e h.pos := by
  have hdigits : ¬digitsOfPlaces k m e = 0 := Nat.ne_of_gt <|
    Nat.mul_pos (Nat.mul_pos h.pos (Nat.pow_pos (by decide))) (Nat.pow_pos (by decide))
  have range : (2 : Int) ^ format.exponentBits = 2048 := rfl
  obtain ⟨j, core⟩ := exists_divCore h enough
  have power : 10 ^ (-(-k : Int)).toNat = Nat.pow 10 k := by simp
  unfold UnpackedFloat.ofScientific
  rw [dif_neg hdigits, if_neg (by omega), if_neg (by omega), if_neg (by omega)]
  simp only [UnpackedFloat.div, power, core]
  exact roundWithAccuracy_shiftLeft h .positive j

/-! ### Expansions of doubles -/

/-- A decimal with so many places is not read by way of exact powers of ten. -/
theorem toFloat_of_places {n k : Nat} (hk : 22 < k) :
    (⟨n, -k⟩ : Decimal).toFloat =
      .ofModel (Float.Model.pack (UnpackedFloat.ofScientific format n (-k))) := by
  have negative : decide (-(k : Int) < 0) = true := by
    rw [decide_eq_true_eq]
    omega
  unfold Decimal.toFloat Float.ofScientific
  rw [dif_neg (by simp; omega)]
  simp only [negative, Int.natAbs_neg, Int.natAbs_natCast, if_true, Int.negOfNat_eq]
  rfl

theorem toFloat_expansion_of_canonical {m : Nat} {e : Int} (h : IsCanonical m e) (narrow : Bool) :
    (Magnitude.mk m e narrow).expansion.toFloat =
      .ofModel (Float.Model.pack (.finite .positive m e h.pos)) := by
  -- no exponent is below that of the subnormal numbers
  have enough : 0 ≤ e + Magnitude.places := by
    have target := h.target
    unfold Format.targetExponent at target
    have : format.minExponent = -1074 := rfl
    unfold Magnitude.places
    omega
  rw [← ofScientific_digitsOfPlaces h enough (by decide) (by decide)]
  exact toFloat_of_places (by decide)

theorem toFloat_expansion_of_zero (e : Int) (narrow : Bool) :
    (Magnitude.mk 0 e narrow).expansion.toFloat =
      .ofModel (Float.Model.pack (.zero .positive)) := by
  have digits : 0 * Nat.pow 2 (e + Magnitude.places).toNat * Nat.pow 5 Magnitude.places = 0 := by
    rw [Nat.zero_mul, Nat.zero_mul]
  rw [Magnitude.expansion, digits, toFloat_of_places (by decide)]
  rfl

/-- **The expansion of a finite double reads back** as its absolute value. -/
theorem toFloat_expansion {v : Float} (finite : v.isFinite = true) :
    (magnitude v).expansion.toFloat = v.abs := by
  obtain ⟨s, e, m, rfl⟩ := exists_ofFields v
  have he := fields_of_isFinite finite
  rw [abs_ofFields, magnitude_ofFields s he, ofFields, fromFields, if_neg he]
  split
  · split
    · rename_i hz
      rw [hz]
      exact toFloat_expansion_of_zero _ _
    · rename_i hz
      have hpos : 0 < m.toNat := Nat.pos_of_ne_zero fun h => hz (BitVec.eq_of_toNat_eq h)
      exact toFloat_expansion_of_canonical (isCanonical_of_lt hpos m.isLt) _
  · rename_i hnz
    have hpos : 0 < e.toNat := Nat.pos_of_ne_zero fun h => hnz (BitVec.eq_of_toNat_eq h)
    exact toFloat_expansion_of_canonical
      (isCanonical_of_log2_eq (log2_implicit m) (by omega)) _

end CurvePlot.Binary64
