import CurvePlot.Proofs.Decimal.Unsigned
import CurvePlot.Proofs.Expr.Language
import CurvePlot.Proofs.Expr.RoundTrip

/-!
# Writing down what was read

The numbers of a formula that was read are finite and have no sign, so when the formula is written
down and read again, only the limit on nesting can stand in the way. It does: the text has a pair
of parentheses around every operation, and the limit on the depth of chains is higher than the one
on nesting. `x+x+…+x` is read with up to 1023 operators, but its text can be read again only with up
to 255 (`parse_sumText`, `parse_text_sumOfVars`).
-/

namespace CurvePlot

namespace Expr

open Token (Kind Ends Spells)

/-! ### Numbers that were read -/

/-- The numbers of a derived formula are among its tokens. -/
theorem Derives.number_mem {c : Phrase} {l : Nat} {ts : List Kind} {t : Expr} {ls : List Nat}
    (h : Derives c l ts t ls) : ∀ v ∈ t.numbers, Kind.number v ∈ ts := by
  induction h with
  | number | var | named => simp [numbers]
  | signedOfOperand _ ih | powerOfSigned _ ih | productOfPower _ ih | sumOfProduct _ ih => exact ih
  | group _ ih | callUnary _ _ ih | minus _ ih | plus _ ih =>
    intro v hv
    simp [ih v hv]
  | callBinary _ _ _ iha ihb | power _ _ iha ihb | product _ _ _ iha ihb | sum _ _ _ iha ihb =>
    intro v hv
    rcases List.mem_append.mp hv with hv | hv
    · simp [iha v hv]
    · simp [ihb v hv]

/-- **The numbers of a formula that was read** are finite and have their sign bits clear. -/
theorem unsigned_of_parse {source : String} {t : Expr} (h : parse source = .ok t) :
    ∀ v ∈ t.numbers, v.isFinite = true ∧ Binary64.signBit v = false := by
  obtain ⟨tokens, hscan, h⟩ := eq_ok_of_bind h
  split at h
  · cases h
  · obtain ⟨ls, hd⟩ := derives_of_ofTokens h
    intro v hv
    obtain ⟨token, htoken, hkind⟩ := List.mem_map.mp (hd.number_mem v hv)
    exact Token.unsigned_of_mem_scan hscan token htoken v hkind

/-! ### Long sums -/

/-- The sum `x + x + … + x` with `n` operators. -/
def sumOfVars : Nat → Expr
  | 0 => .var
  | n + 1 => .binary .add (sumOfVars n) .var

/-- How such a sum may be written without any parentheses. -/
def sumChars : Nat → List Char
  | 0 => ['x']
  | n + 1 => sumChars n ++ ['+', 'x']

def sumText (n : Nat) : String :=
  String.ofList (sumChars n)

/-- The tokens after the first `x`. -/
def sumKinds : Nat → List Kind
  | 0 => []
  | n + 1 => sumKinds n ++ [.plus, .name "x"]

theorem spells_sumChars (n : Nat) {rest : List Char} (ends : Ends rest) :
    Spells (sumChars n) (.name "x" :: sumKinds n) rest := by
  induction n generalizing rest with
  | zero => exact spells_name .x ends
  | succ n ih =>
    have last : Spells ['+', 'x'] [.plus, .name "x"] rest :=
      (Spells.symbol (c := '+') rfl _).append (spells_name .x ends)
    exact (ih (.cons ⟨rfl, rfl⟩ _)).append last

theorem depth_sumOfVars (n : Nat) : (sumOfVars n).depth = n + 1 := by
  induction n with
  | zero => rfl
  | succ n ih => simp [sumOfVars, depth, ih]

theorem nesting_sumOfVars (n : Nat) : (sumOfVars n).nesting = n := by
  induction n with
  | zero => rfl
  | succ n ih => simp [sumOfVars, nesting, ih, Nat.add_comm]

theorem numbers_sumOfVars (n : Nat) : (sumOfVars n).numbers = [] := by
  induction n with
  | zero => rfl
  | succ n ih => simp [sumOfVars, numbers, ih]

/-- All operands of a sum without parentheses stand at the level of the sum. -/
theorem derives_sumOfVars (l n : Nat) :
    Derives .sum l (.name "x" :: sumKinds n) (sumOfVars n) (List.replicate (n + 1) l) := by
  have x : Derives .product l [.name "x"] .var [l] :=
    .productOfPower (.powerOfSigned (.signedOfOperand (.var l (Builtin.ofName?_name .x))))
  induction n with
  | zero => exact .sumOfProduct x
  | succ n ih =>
    rw [List.replicate_succ']
    exact .sum (k := .plus) rfl ih x

/-- **Long sums are read** up to the limit on chains. -/
theorem parse_sumText {n : Nat} (h : n < 1024) : parse (sumText n) = .ok (sumOfVars n) := by
  obtain ⟨tokens, hkinds, hparse⟩ := exists_parse_eq (spells_sumChars n .nil)
  rw [sumText, hparse]
  refine Derives.ofTokens_eq_ok (hkinds ▸ derives_sumOfVars 1 n) (by decide) ⟨?_, ?_⟩
  · intro l hl
    rw [List.eq_of_mem_replicate hl]
    decide
  · exact chainsWithin_of_depth_le (by rw [depth_sumOfVars]; exact h)

/-- **The text of a long sum** has so many parentheses that it is too deep. -/
theorem parse_text_sumOfVars {n : Nat} (h : 256 ≤ n) :
    parse (sumOfVars n).text = .error (.tooDeep 256) := by
  refine (reading_parse_text (sumOfVars n)).eq_error (by simp [numbers_sumOfVars]) ?_
  rw [nesting_sumOfVars]
  exact Nat.lt_one_add_iff.mpr h

/-! ### Reading again -/

/-- Without signs on its numbers, the text of a formula is nested at most twice as deep as the
formula. -/
theorem nesting_add_two_le {t : Expr} (h : ∀ v ∈ t.numbers, Binary64.signBit v = false) :
    t.nesting + 2 ≤ 2 * t.depth := by
  induction t with
  | const v => simp [nesting, depth, h v List.mem_cons_self]
  | var | named _ => simp [nesting, depth]
  | unary op a ih =>
    have ha := ih h
    cases op <;> simp only [nesting, depth] <;> omega
  | binary op a b iha ihb =>
    rw [numbers, List.forall_mem_append] at h
    have ha := iha h.1
    have hb := ihb h.2
    cases op <;> simp only [nesting, depth] <;> omega

/-- **What was read can be written down and read again** if and only if its text has no operand at a
level above 256. It is then read as the same formula, which is always so for a formula that is not
deeper than 128, and it is refused as too deep otherwise. -/
theorem parse_text_of_parse {source : String} {t : Expr} (parsed : parse source = .ok t) :
    (∀ u, parse t.text = .ok u ↔ u = t ∧ 1 + t.nesting ≤ 256) ∧
    (t.depth ≤ 128 → parse t.text = .ok t) ∧
    (256 < 1 + t.nesting → parse t.text = .error (.tooDeep 256)) := by
  have finite : ∀ v ∈ t.numbers, v.isFinite = true := fun v hv => (unsigned_of_parse parsed v hv).1
  have unsigned : ∀ v ∈ t.numbers, Binary64.signBit v = false :=
    fun v hv => (unsigned_of_parse parsed v hv).2
  have reading := reading_parse_text t
  rw [norm_eq_self unsigned] at reading
  have read (u : Expr) : parse t.text = .ok u ↔ u = t ∧ 1 + t.nesting ≤ 256 := by
    rw [reading.eq_ok_iff]
    exact and_congr_right fun _ => and_iff_right finite
  refine ⟨read, fun shallow => (read t).mpr ⟨rfl, ?_⟩, reading.eq_error finite⟩
  have nesting := nesting_add_two_le unsigned
  omega

/-- With 255 operators a sum can just be read again. -/
theorem parse_text_sumOfVars_of_255 :
    parse (sumText 255) = .ok (sumOfVars 255) ∧
      parse (sumOfVars 255).text = .ok (sumOfVars 255) := by
  have parsed : parse (sumText 255) = .ok (sumOfVars 255) := parse_sumText (by decide)
  refine ⟨parsed, ((parse_text_of_parse parsed).1 _).mpr ⟨rfl, ?_⟩⟩
  rw [nesting_sumOfVars]

/-- With 256 operators a sum can be read, but not again after it was written down. -/
theorem parse_text_sumOfVars_of_256 :
    parse (sumText 256) = .ok (sumOfVars 256) ∧
      parse (sumOfVars 256).text = .error (.tooDeep 256) :=
  ⟨parse_sumText (by decide), parse_text_sumOfVars (Nat.le_refl 256)⟩

end Expr

end CurvePlot
