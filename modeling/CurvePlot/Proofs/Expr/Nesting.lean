import CurvePlot.Proofs.Expr.Language
import CurvePlot.Proofs.Expr.Printed

/-!
# How many levels a formula may nest

An operand is **nested** as deep as there are parentheses, argument lists, signs and exponents around
it, so an operand outside of everything is nested in nothing. The reader counts from one: it counts
the operand itself, before it has met anything around it. Levels may be counted from anywhere, since
the grammar treats all of them alike (`Derives.shift`), and what is nested `n` levels deep is at the
level `n + 1` of the reader.

So the limit of 256 levels lets operands be nested in 255 levels and not in 256. That is the one
number where formulas begin to be refused, whichever way the levels are made up
(`ofTokens_of_nested`).
-/

namespace CurvePlot

namespace Expr

open Token (Kind Ends Spells)

/-! ### Counting from anywhere -/

/-- **Levels may be counted from anywhere.** -/
theorem Derives.shift {c : Phrase} {l : Nat} {ts : List Kind} {t : Expr} {ls : List Nat}
    (h : Derives c l ts t ls) (d : Nat) : Derives c (l + d) ts t (ls.map (· + d)) := by
  induction h with
  | number l value => exact .number (l + d) value
  | var l name => exact .var (l + d) name
  | named l name => exact .named (l + d) name
  | @group l _ _ _ _ inside =>
    rw [Nat.add_right_comm] at inside
    exact .group inside
  | @callUnary l _ _ _ _ _ name _ argument =>
    rw [Nat.add_right_comm] at argument
    exact .callUnary name argument
  | @callBinary l _ _ _ _ _ _ _ _ name _ _ first second =>
    rw [Nat.add_right_comm] at first second
    rw [List.map_cons, List.map_append]
    exact .callBinary name first second
  | signedOfOperand _ operand => exact .signedOfOperand operand
  | minus _ inside =>
    rw [Nat.add_right_comm] at inside
    exact .minus inside
  | plus _ inside =>
    rw [Nat.add_right_comm] at inside
    exact .plus inside
  | powerOfSigned _ base => exact .powerOfSigned base
  | power _ _ base exponent =>
    rw [Nat.add_right_comm] at exponent
    rw [List.map_append]
    exact .power base exponent
  | productOfPower _ factor => exact .productOfPower factor
  | product operator _ _ left right =>
    rw [List.map_append]
    exact .product operator left right
  | sumOfProduct _ term => exact .sumOfProduct term
  | sum operator _ _ left right =>
    rw [List.map_append]
    exact .sum operator left right

/-! ### The limit -/

section Limit

variable {tokens : List Token} {t : Expr} {levels : List Nat}
  (nested : Derives .sum 0 (tokens.map Token.kind) t levels) (chains : t.ChainsWithin 1024)
include nested

/-- The reader counts one level more. -/
theorem Derives.outcome_of_nested :
    Outcome .standard (levels.map (· + 1)) t (ofTokens tokens) t :=
  Derives.outcome_ofTokens (nested.shift 1) (by decide)

include chains

theorem ofTokens_eq_ok_of_nested (within : ∀ l ∈ levels, l ≤ 255) : ofTokens tokens = .ok t := by
  refine nested.outcome_of_nested.eq_ok ⟨fun m hm => ?_, chains⟩
  obtain ⟨l, hl, rfl⟩ := List.mem_map.mp hm
  exact Nat.succ_le_succ (within l hl)

theorem ofTokens_eq_error_of_nested {l : Nat} (hl : l ∈ levels) (deep : 255 < l) :
    ofTokens tokens = .error (.tooDeep 256) := by
  have outcome := nested.outcome_of_nested
  generalize ofTokens tokens = r at outcome
  cases outcome with
  | fits fits =>
    have within : l + 1 ≤ 256 := fits.level_le (l + 1) (List.mem_map_of_mem hl)
    omega
  | tooNested _ => rfl
  | tooLong long => exact absurd chains long

end Limit

/-- **The limit on nesting.** Take any formula without chains that are too deep, and count the levels
that its operands are nested in. The formula is read if there are 255 at most around every operand,
and refused as too deep otherwise. -/
theorem ofTokens_of_nested {tokens : List Token} {t : Expr} {levels : List Nat}
    (nested : Derives .sum 0 (tokens.map Token.kind) t levels) (chains : t.ChainsWithin 1024) :
    ((∀ l ∈ levels, l ≤ 255) → ofTokens tokens = .ok t) ∧
      ((∃ l ∈ levels, 255 < l) → ofTokens tokens = .error (.tooDeep 256)) := by
  refine ⟨ofTokens_eq_ok_of_nested nested chains, ?_⟩
  rintro ⟨l, hl, deep⟩
  exact ofTokens_eq_error_of_nested nested chains hl deep

/-! ### The variable in parentheses -/

/-- The tokens of `((…x…))` with `n` pairs of parentheses. -/
def enclosedKinds : Nat → List Kind
  | 0 => [.name "x"]
  | n + 1 => .lparen :: (enclosedKinds n ++ [.rparen])

def enclosedChars : Nat → List Char
  | 0 => ['x']
  | n + 1 => '(' :: (enclosedChars n ++ [')'])

def enclosedText (n : Nat) : String :=
  String.ofList (enclosedChars n)

theorem spells_enclosedChars (n : Nat) {rest : List Char} (ends : Ends rest) :
    Spells (enclosedChars n) (enclosedKinds n) rest := by
  induction n generalizing rest with
  | zero => exact spells_name .x ends
  | succ n ih => exact spells_group (ih (.cons ⟨rfl, rfl⟩ rest))

/-- Each pair of parentheses is a level, and the variable is nested in all of them. -/
theorem derives_enclosedKinds (n l : Nat) :
    Derives .sum l (enclosedKinds n) .var (List.range' l (n + 1)) := by
  induction n generalizing l with
  | zero =>
    exact .sumOfProduct (.productOfPower (.powerOfSigned (.signedOfOperand
      (.var l (Builtin.ofName?_name .x)))))
  | succ n ih =>
    rw [List.range'_succ]
    exact .sumOfProduct (.productOfPower (.powerOfSigned (.signedOfOperand
      (.group (ih (l + 1))))))

/-- The levels that the operands are nested in are all the numbers up to the number of pairs. -/
theorem exists_nested_enclosed (n : Nat) : ∃ tokens levels,
    Token.scan (enclosedText n) = .ok tokens ∧
      Derives .sum 0 (tokens.map Token.kind) .var levels ∧ ∀ l, l ∈ levels ↔ l ≤ n := by
  obtain ⟨tokens, hkinds, hscan⟩ := (spells_enclosedChars n .nil).scan
  refine ⟨tokens, List.range' 0 (n + 1), hscan, hkinds ▸ derives_enclosedKinds n 0, fun l => ?_⟩
  rw [List.mem_range'_1]
  omega

/-- In 255 pairs of parentheses the variable is read, in 256 pairs it is not. -/
theorem ofTokens_of_nested_enclosed :
    (∃ tokens, Token.scan (enclosedText 255) = .ok tokens ∧ ofTokens tokens = .ok .var) ∧
      ∃ tokens, Token.scan (enclosedText 256) = .ok tokens ∧
        ofTokens tokens = .error (.tooDeep 256) := by
  obtain ⟨tokens, levels, hscan, nested, hlevels⟩ := exists_nested_enclosed 255
  obtain ⟨tokens', levels', hscan', nested', hlevels'⟩ := exists_nested_enclosed 256
  refine ⟨⟨tokens, hscan, ?_⟩, tokens', hscan', ?_⟩
  · exact (ofTokens_of_nested nested trivial).1 fun l => (hlevels l).mp
  · exact (ofTokens_of_nested nested' trivial).2 ⟨256, (hlevels' 256).mpr le_rfl, by decide⟩

/-- **In 256 pairs of parentheses the variable is refused**, although no operand is nested in more
levels than 256. -/
theorem ofTokens_enclosed_eq_error : ∃ tokens levels,
    Token.scan (enclosedText 256) = .ok tokens ∧
      Derives .sum 0 (tokens.map Token.kind) .var levels ∧ (∀ l ∈ levels, l ≤ 256) ∧
      Expr.var.ChainsWithin 1024 ∧ ofTokens tokens = .error (.tooDeep 256) := by
  obtain ⟨tokens, levels, hscan, nested, hlevels⟩ := exists_nested_enclosed 256
  refine ⟨tokens, levels, hscan, nested, fun l => (hlevels l).mp, trivial, ?_⟩
  exact ofTokens_eq_error_of_nested nested trivial ((hlevels 256).mpr le_rfl) (by decide)

end Expr

end CurvePlot
