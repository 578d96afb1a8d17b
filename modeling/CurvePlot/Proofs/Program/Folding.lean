import CurvePlot.Program.Fold

/-!
# Folding a program is folding a tree

The folder sees a flat list of instructions and a shadow stack; this module says what it does
in terms of trees. The code of a formula, met in any state of the folder, adds one known or
unknown slot to the shadow stack and emits the code of the formula in which every largest
part without the variable has become one number (`foldl_step_lower`). So folding a lowered
program and lowering a folded tree are the same (`fold_ofExpr`), and all that is known of
lowered programs holds of folded ones.
-/

namespace CurvePlot

namespace Expr

/-- The value of a formula in which the variable does not occur. -/
def value? (t : Expr) : Option Float :=
  if t.dependsOnX then none else some (t.eval 0)

/-- The formula in which every **largest part without the variable** is replaced by its
value. -/
def foldConstants (t : Expr) : Expr :=
  if t.dependsOnX then
    match t with
    | unary op a => unary op a.foldConstants
    | binary op a b => binary op a.foldConstants b.foldConstants
    | leaf => leaf
  else
    const (t.eval 0)

theorem value?_unary (op : UnaryOp) (a : Expr) :
    (unary op a).value? = a.value?.map op.apply := by
  cases h : a.dependsOnX <;> simp [value?, dependsOnX, eval, h]

theorem value?_binary (op : BinaryOp) (a b : Expr) :
    (binary op a b).value? = a.value?.bind fun v => b.value?.map (op.apply v) := by
  cases ha : a.dependsOnX <;> cases hb : b.dependsOnX <;>
    simp [value?, dependsOnX, eval, ha, hb]

/-- A formula that has a value of its own has it at every `x`. -/
theorem eval_of_value? {t : Expr} {v : Float} (h : t.value? = some v) (x : Float) :
    t.eval x = v := by
  cases hx : t.dependsOnX with
  | true => simp [value?, hx] at h
  | false =>
    have hv : t.eval 0 = v := by simpa [value?, hx] using h
    rw [eval_eq_eval_of_not_dependsOnX hx x 0, hv]

theorem foldConstants_of_value? {t : Expr} {v : Float} (h : t.value? = some v) :
    t.foldConstants = const v := by
  cases hx : t.dependsOnX with
  | true => simp [value?, hx] at h
  | false =>
    have hv : t.eval 0 = v := by simpa [value?, hx] using h
    rw [foldConstants.eq_def, if_neg (by simp [hx]), hv]

theorem foldConstants_unary {op : UnaryOp} {a : Expr} (h : a.value? = none) :
    (unary op a).foldConstants = unary op a.foldConstants := by
  have ha : a.dependsOnX = true := by simpa [value?] using h
  rw [foldConstants, if_pos (by simp [dependsOnX, ha])]

theorem foldConstants_binary {op : BinaryOp} {a b : Expr} (h : (binary op a b).value? = none) :
    (binary op a b).foldConstants = binary op a.foldConstants b.foldConstants := by
  have hab : (binary op a b).dependsOnX = true := by simpa [value?] using h
  rw [foldConstants, if_pos hab]

/-- Replacing constant parts by their values does not change the value of a formula. -/
theorem eval_foldConstants (t : Expr) (x : Float) : t.foldConstants.eval x = t.eval x := by
  cases hv : t.value? with
  | some v => rw [foldConstants_of_value? hv, eval_of_value? hv x]; rfl
  | none =>
    induction t with
    | const _ | named _ => simp [value?, dependsOnX] at hv
    | var => rfl
    | unary op a ih =>
      have ha : a.value? = none := by simpa [value?_unary] using hv
      rw [foldConstants_unary ha, eval, eval, ih ha]
    | binary op a b iha ihb =>
      -- a side that has a value is a number already, the other sides are as the induction says
      have side : ∀ c : Expr, (c.value? = none → c.foldConstants.eval x = c.eval x) →
          c.foldConstants.eval x = c.eval x := by
        intro c ihc
        cases hc : c.value? with
        | none => exact ihc hc
        | some w => rw [foldConstants_of_value? hc, eval_of_value? hc x]; rfl
      rw [foldConstants_binary hv, eval, eval, side a iha, side b ihb]

end Expr

namespace Program

/-- The code of a formula, met by the folder in **any state**, emits the code of the folded
formula and adds to the shadow stack what is known of its value. -/
theorem foldl_step_lower (t : Expr) (s : Folding) :
    (lower t).foldl Folding.step s =
      ⟨(lower t.foldConstants).reverse ++ s.emitted, t.value? :: s.known⟩ := by
  induction t generalizing s with
  | const _ | var | named _ => rfl
  | unary op a ih =>
    rw [lower, List.foldl_append, ih, Expr.value?_unary]
    -- what the operand left on top of the shadow stack decides the step
    cases ha : a.value? with
    | some v =>
      have hv : (Expr.unary op a).value? = some (op.apply v) := by simp [Expr.value?_unary, ha]
      simp [Folding.step, Expr.foldConstants_of_value? ha, Expr.foldConstants_of_value? hv, lower]
    | none => simp [Folding.step, Expr.foldConstants_unary ha, lower]
  | binary op a b iha ihb =>
    rw [lower, List.foldl_append, List.foldl_append, iha, ihb, Expr.value?_binary]
    have known : ∀ {v : Float}, (Expr.binary op a b).value? = some v →
        (Expr.binary op a b).foldConstants = .const v := Expr.foldConstants_of_value?
    have unknown : (Expr.binary op a b).value? = none →
        (Expr.binary op a b).foldConstants = .binary op a.foldConstants b.foldConstants :=
      Expr.foldConstants_binary
    rw [Expr.value?_binary] at known unknown
    -- the two topmost slots decide the step: only two known ones are joined
    cases ha : a.value? with
    | none => simp_all [Folding.step, lower]
    | some v =>
      cases hb : b.value? with
      | none => simp_all [Folding.step, lower]
      | some w =>
        have hva := Expr.foldConstants_of_value? ha
        have hvb := Expr.foldConstants_of_value? hb
        simp_all [Folding.step, lower]

/-- **Folding the program of a formula** gives the program of the folded formula. -/
theorem fold_ofExpr (t : Expr) : (ofExpr t).fold = ofExpr t.foldConstants := by
  simp [fold, foldInstrs, ofExpr, foldl_step_lower]

end Program

end CurvePlot
