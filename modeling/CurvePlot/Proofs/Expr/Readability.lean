import CurvePlot.Proofs.Binary64.Arithmetic
import CurvePlot.Proofs.Expr.Reread

/-!
# Printed formulas are uniquely readable

Two formulas of finite numbers have the same text only if they are the same formula, once the sign of
every number is taken as a negation, and however deep they are. The reader of formulas stops at a
limit, but what it reads below the limit does not depend on it: given limits that are wide enough for
both of them, it reads each formula back from the tokens of its text (`reading_ofTokens`), and one
text has one list of tokens. The other way round, a number with its sign bit set is written as the
negation of its absolute value (`chars_norm`).
-/

namespace CurvePlot

/-! ### The text of a negative number -/

namespace Binary64

theorem abs_neg (v : Float) : (-v).abs = v.abs := by
  obtain ⟨s, e, m, rfl⟩ := exists_ofFields v
  rw [neg_ofFields, abs_ofFields, abs_ofFields]

variable {v : Float} (finite : v.isFinite = true)
include finite

theorem magnitude_neg : magnitude (-v) = magnitude v := by
  obtain ⟨s, e, m, rfl⟩ := exists_ofFields v
  have he := fields_of_isFinite finite
  rw [neg_ofFields, magnitude_ofFields (-s) he, magnitude_ofFields s he]

theorem signBit_neg (h : signBit v = true) : signBit (-v) = false := by
  obtain ⟨s, e, m, rfl⟩ := exists_ofFields v
  have he := fields_of_isFinite finite
  rw [signBit_ofFields s fun h => absurd h he] at h
  rw [neg_ofFields, signBit_ofFields (-s) fun h => absurd h he]
  cases s with
  | negative => rfl
  | positive => cases h

end Binary64

namespace Number

/-- A number with its sign bit set is written as the **negation of its absolute value**. -/
theorem text_of_signBit {v : Float} (finite : v.isFinite = true) (h : Binary64.signBit v = true) :
    text v = '-' :: text (-v) := by
  have finite' : (-v).isFinite = true := by rw [Binary64.isFinite_neg, finite]
  have digits : Decimal.ofFloat .up (-v) = Decimal.ofFloat .up v := by
    rw [Decimal.ofFloat, Decimal.ofFloat, Binary64.magnitude_neg finite, Binary64.abs_neg]
  have unsigned : unsignedText (-v) = unsignedText v := by
    rw [unsignedText, unsignedText, finite, finite', digits]
  rw [text, text, Binary64.isNaN_of_isFinite finite, Binary64.isNaN_of_isFinite finite', h,
    Binary64.signBit_neg finite h, unsigned]
  rfl

end Number

namespace Expr

/-- **Signs as negations** do not change the text of a formula of finite numbers. -/
theorem chars_norm {t : Expr} (finite : ∀ v ∈ t.numbers, v.isFinite = true) :
    t.norm.chars = t.chars := by
  induction t with
  | const v =>
    have hv : v.isFinite = true := finite v List.mem_cons_self
    cases sign : Binary64.signBit v with
    | false => simp [norm, sign]
    | true =>
      have clear := Binary64.signBit_neg hv sign
      simp [norm, chars, sign, clear, Number.text_of_signBit hv sign]
  | var | named c => rfl
  | unary op a ih =>
    have ha := ih finite
    cases op with
    | neg => rw [norm, chars, chars, ha]
    | call f => rw [norm, chars, chars, ha]
  | binary op a b iha ihb =>
    obtain ⟨fa, fb⟩ := List.forall_mem_append.mp finite
    have ha := iha fa
    have hb := ihb fb
    cases op with
    | call f => rw [norm, chars, chars, ha, hb]
    | _ => simp only [norm, chars, ha, hb]

/-- **Formulas with one text** are the same but for the signs of numbers. -/
theorem norm_eq_norm_of_text_eq {t u : Expr} (ht : ∀ v ∈ t.numbers, v.isFinite = true)
    (hu : ∀ v ∈ u.numbers, v.isFinite = true) (h : t.text = u.text) : t.norm = u.norm := by
  obtain ⟨tokens, hkinds, hscan⟩ := (t.spells_chars .nil).scan
  obtain ⟨tokens', hkinds', hscan'⟩ := (u.spells_chars .nil).scan
  have same : tokens = tokens' := by
    rw [← text, h, text, hscan'] at hscan
    exact (Except.ok.inj hscan).symm
  subst same
  -- limits that neither of the two texts meets
  let wide : Nat := max (1 + t.nesting) (1 + u.nesting)
  let limits : Limits := ⟨wide, wide⟩
  have outside : 1 ≤ wide := Nat.le_trans (Nat.le_add_right 1 _) (Nat.le_max_left _ _)
  have deep : limits.nesting ≤ limits.depth := Nat.le_refl wide
  have readT : ofTokensWithin limits tokens = .ok t.norm :=
    ((reading_ofTokens deep outside hkinds).eq_ok_iff _).mpr ⟨rfl, ht, Nat.le_max_left _ _⟩
  have readU : ofTokensWithin limits tokens = .ok u.norm :=
    ((reading_ofTokens deep outside hkinds').eq_ok_iff _).mpr ⟨rfl, hu, Nat.le_max_right _ _⟩
  exact Except.ok.inj (readT.symm.trans readU)

/-- **Printed formulas are uniquely readable**, however deep they are. Two formulas of finite numbers
have the same text if and only if they are the same once every number with its sign bit set is
rewritten as a negation. If no number has its sign bit set, they have the same text only if they are
the same; and so it is for all formulas that were read. -/
theorem text_determines_formula :
    (∀ t u : Expr, (∀ v ∈ t.numbers, v.isFinite = true) → (∀ v ∈ u.numbers, v.isFinite = true) →
      (t.text = u.text ↔ t.norm = u.norm)) ∧
    (∀ t u : Expr, (∀ v ∈ t.numbers, v.isFinite = true ∧ Binary64.signBit v = false) →
      (∀ v ∈ u.numbers, v.isFinite = true ∧ Binary64.signBit v = false) →
      t.text = u.text → t = u) ∧
    (∀ (source : String) (t : Expr), parse source = .ok t →
      ∀ v ∈ t.numbers, v.isFinite = true ∧ Binary64.signBit v = false) := by
  refine ⟨fun t u ht hu => ⟨norm_eq_norm_of_text_eq ht hu, fun h => ?_⟩, fun t u ht hu h => ?_,
    fun source t => unsigned_of_parse⟩
  · rw [text, text, ← chars_norm ht, ← chars_norm hu, h]
  · have same := norm_eq_norm_of_text_eq (fun v hv => (ht v hv).1) (fun v hv => (hu v hv).1) h
    rwa [norm_eq_self fun v hv => (ht v hv).2, norm_eq_self fun v hv => (hu v hv).2] at same

/-- The number `-2` and the negation of `2` have one text, and `x^2` and `pow(x, 2)` have two. -/
theorem text_determines_formula_two :
    (const (-2)).text = (unary .neg (const 2)).text ∧
      (binary .pow var (const 2)).text ≠ (binary (.call .pow) var (const 2)).text := by
  obtain ⟨signs, plain, -⟩ := text_determines_formula
  refine ⟨?_, fun h => ?_⟩
  · have finite : (-2 : Float).isFinite = true := by decide +kernel
    have finite' : (2 : Float).isFinite = true := by decide +kernel
    refine (signs _ _ (by simp [numbers, finite]) (by simp [numbers, finite'])).mpr ?_
    decide +kernel
  · have unsigned : (2 : Float).isFinite = true ∧ Binary64.signBit 2 = false := by decide +kernel
    have same := plain _ _ (by simp [numbers, unsigned]) (by simp [numbers, unsigned]) h
    exact absurd (binary.inj same).1 (by decide)

end Expr

end CurvePlot
