import CurvePlot.Proofs.Binary64.Expansion
import CurvePlot.Proofs.Decimal.Parts
import CurvePlot.Token.Scanner

/-!
# The text of a number reads back

A positional text is made of digits and at most one point (`laidOutAs_positional`). So it is a
literal, and what the literal spells is the decimal without a positive power of ten
(`ofLiteral?_positional`). The decimal that is chosen for a double was read back before it was
chosen, or is the exact expansion of the double. So the text of a finite double is a number of the
same absolute value (`numberValue?_unsignedText`).
-/

namespace CurvePlot

namespace Decimal

/-! ### Digits -/

theorem isDigit_of_mem_digitsOf {n : Nat} {c : Char} (h : c ∈ digitsOf n) : c.isDigit = true :=
  Nat.isDigit_of_mem_toDigits (by decide) (by decide) h

theorem digitsOf_ne_nil (n : Nat) : digitsOf n ≠ [] :=
  Nat.toDigits_ne_nil

theorem ofDigits_digitsOf (n : Nat) : ofDigits (digitsOf n) = n :=
  Nat.ofDigitChars_ten_toDigits

theorem isDigit_of_mem_zeros {count : Nat} {c : Char} (h : c ∈ List.replicate count '0') :
    c.isDigit = true := by
  rw [List.eq_of_mem_replicate h]
  rfl

theorem isDigit_of_mem_zeros_append {count n : Nat} {c : Char}
    (h : c ∈ List.replicate count '0' ++ digitsOf n) : c.isDigit = true :=
  (List.mem_append.mp h).elim isDigit_of_mem_zeros isDigit_of_mem_digitsOf

theorem isDigit_of_mem_append_zeros {count n : Nat} {c : Char}
    (h : c ∈ digitsOf n ++ List.replicate count '0') : c.isDigit = true :=
  (List.mem_append.mp h).elim isDigit_of_mem_digitsOf isDigit_of_mem_zeros

/-- Zeros in front of some digits do not count. -/
theorem ofDigits_zeros_append (count : Nat) (ds : List Char) :
    ofDigits (List.replicate count '0' ++ ds) = ofDigits ds := by
  induction count with
  | zero => rfl
  | succ count ih =>
    rw [List.replicate_succ, List.cons_append, ← ih]
    rfl

/-- Zeros behind some digits multiply by a power of ten. -/
theorem ofDigits_append_zeros (ds : List Char) (count : Nat) :
    ofDigits (ds ++ List.replicate count '0') = ofDigits ds * Nat.pow 10 count := by
  induction count with
  | zero => simp
  | succ count ih =>
    have last : ofDigits (ds ++ List.replicate count '0' ++ ['0']) =
        10 * ofDigits (ds ++ List.replicate count '0') := by
      rw [ofDigits, List.foldl_append]
      rfl
    rw [List.replicate_succ', ← List.append_assoc, last, ih]
    simp only [Nat.pow_eq]
    ring

/-! ### Literals -/

theorem ofLiteral?_whole {ws : List Char} (nonempty : ws ≠ []) (hw : ∀ c ∈ ws, c.isDigit = true) :
    ofLiteral? ws = some ⟨ofDigits ws, 0⟩ := by
  have read := ofLiteral?_digits hw .absent
  rwa [List.append_nil, if_neg nonempty] at read

theorem ofLiteral?_point {ws fs : List Char} (nonempty : ws ≠ [])
    (hw : ∀ c ∈ ws, c.isDigit = true) (hf : ∀ c ∈ fs, c.isDigit = true) :
    ofLiteral? (ws ++ '.' :: fs) = some ⟨ofDigits (ws ++ fs), -fs.length⟩ := by
  have read := ofLiteral?_digits_point_digits hw hf .absent
  have some_digit : ws ++ fs ≠ [] := List.append_ne_nil_of_left_ne_nil nonempty fs
  rwa [List.append_nil, if_neg some_digit, Int.zero_sub] at read

/-! ### Layout -/

/-- How a decimal is **laid out by position**: in digits alone if no digit stands behind the point, and
otherwise in digits on both sides of a point, as many behind it as the power of ten says. -/
inductive LaidOutAs (d : Decimal) : List Char → Prop
  | whole {ws : List Char} (exponent : 0 ≤ d.exponent) (nonempty : ws ≠ [])
    (digit : ∀ c ∈ ws, c.isDigit = true)
    (value : ofDigits ws = d.digits * Nat.pow 10 d.exponent.toNat) : LaidOutAs d ws
  | point {ws fs : List Char} (exponent : d.exponent < 0) (nonempty : ws ≠ [])
    (digit : ∀ c ∈ ws, c.isDigit = true) (digit' : ∀ c ∈ fs, c.isDigit = true)
    (value : ofDigits (ws ++ fs) = d.digits) (length : (fs.length : Int) = -d.exponent) :
    LaidOutAs d (ws ++ '.' :: fs)

/-- **A positional text** is laid out by position. -/
theorem laidOutAs_positional (d : Decimal) : LaidOutAs d d.positional := by
  unfold positional
  simp only
  split
  · -- no point: the zeros stand for the power of ten
    rename_i exponent
    refine .whole exponent (by simp [digitsOf_ne_nil]) (fun c => isDigit_of_mem_append_zeros) ?_
    rw [ofDigits_append_zeros, ofDigits_digitsOf]
  · rename_i exponent
    have negative : d.exponent < 0 := not_le.mp exponent
    split
    · -- the point stands among the digits
      rename_i inner
      refine .point negative ?_ (fun c hc => isDigit_of_mem_digitsOf (List.mem_of_mem_take hc))
        (fun c hc => isDigit_of_mem_digitsOf (List.mem_of_mem_drop hc)) ?_ ?_
      · refine List.ne_nil_of_length_pos ?_
        rw [List.length_take]
        omega
      · rw [List.take_append_drop, ofDigits_digitsOf]
      · rw [List.length_drop]
        omega
    · -- the point stands in front of the digits, and zeros fill what is between
      change LaidOutAs d (['0'] ++ '.' :: _)
      refine .point negative (by simp) (by simp) (fun c => isDigit_of_mem_zeros_append) ?_ ?_
      · exact (ofDigits_zeros_append (_ + 1) _).trans (ofDigits_digitsOf _)
      · rw [List.length_append, List.length_replicate]
        omega

theorem LaidOutAs.ne_nil {d : Decimal} {cs : List Char} (h : LaidOutAs d cs) : cs ≠ [] := by
  cases h with
  | whole _ nonempty => exact nonempty
  | point _ nonempty => exact List.append_ne_nil_of_left_ne_nil nonempty _

/-- Only digits and a point are put into a positional text. -/
theorem LaidOutAs.isDigit_or {d : Decimal} {cs : List Char} (h : LaidOutAs d cs) {c : Char}
    (hc : c ∈ cs) : c.isDigit = true ∨ c = '.' := by
  cases h with
  | whole _ _ digit => exact .inl (digit c hc)
  | point _ _ digit digit' =>
    simp only [List.mem_append, List.mem_cons] at hc
    rcases hc with hc | rfl | hc
    · exact .inl (digit c hc)
    · exact .inr rfl
    · exact .inl (digit' c hc)

/-- **Positional layout reads back**, with all digits down to the units. -/
theorem ofLiteral?_positional (d : Decimal) : ofLiteral? d.positional = some d.spelledOut := by
  have laidOut := laidOutAs_positional d
  generalize d.positional = cs at laidOut
  cases laidOut with
  | whole exponent nonempty digit value =>
    rw [ofLiteral?_whole nonempty digit, value, spelledOut, if_pos exponent]
  | point exponent nonempty digit digit' value length =>
    rw [ofLiteral?_point nonempty digit digit', value, length, neg_neg, spelledOut,
      if_neg exponent.not_ge]

/-! ### Numbers -/

/-- The decimal of a finite double is read as the absolute value of the double. -/
theorem toFloat_spelledOut_ofFloat {v : Float} (finite : v.isFinite = true) (tie : Tie) :
    (ofFloat tie v).spelledOut.toFloat = v.abs := by
  unfold ofFloat
  simp only
  split
  · -- the shorter decimal was chosen because it reads back
    rename_i read
    exact read.2
  · have negative : ¬0 ≤ -(Binary64.Magnitude.places : Int) := by decide
    rw [spelledOut, Binary64.Magnitude.expansion, if_neg negative]
    exact Binary64.toFloat_expansion finite

end Decimal

namespace Number

/-- **The text of a finite double** reads back as its absolute value. -/
theorem numberValue?_unsignedText {v : Float} (finite : v.isFinite = true) :
    Token.numberValue? (unsignedText v) = some v.abs := by
  rw [unsignedText, if_pos finite, Token.numberValue?, Decimal.ofLiteral?_positional,
    Option.map_some, Decimal.toFloat_spelledOut_ofFloat finite]
  simp [Binary64.isFinite_abs, finite]

end Number

end CurvePlot
