import CurvePlot.Curve
import CurvePlot.Proofs.Program.Evaluation

/-!
# Folding leaves nothing to fold

Folding replaces exactly the largest parts of a formula in which the variable does not occur. A
program is **in normal form** if no operation has only numbers to work on. What pushes the operands
of an operation ends right before it, so this can be read off neighbouring instructions: no number is
followed by an operation on one operand, and no two numbers by an operation on two.

Reading a program from the left, it is enough to count the numbers that were pushed one after the
other just now (`Settled`). The code of a folded formula always brings this count down to nothing,
unless it is a single number (`settled_lower_foldConstants`).
-/

namespace CurvePlot

namespace Program

/-! ### Normal forms -/

/-- Instructions **in normal form**: no operation remains all of whose operands are numbers. -/
structure InNormalForm (instrs : List Instr) : Prop where
  unary : ∀ v op, ¬[.push v, .unary op] <:+: instrs
  binary : ∀ v w op, ¬[.push v, .push w, .binary op] <:+: instrs

/-- What remains of a program in normal form, after `pushed` numbers in a row. -/
def Settled : Nat → List Instr → Prop
  | _, [] => True
  | pushed, .push _ :: rest => Settled (pushed + 1) rest
  | _, .load :: rest => Settled 0 rest
  | pushed, .unary _ :: rest => pushed = 0 ∧ Settled 0 rest
  | pushed, .binary _ :: rest => pushed < 2 ∧ Settled 0 rest

/-- Numbers, and then an operation that has only these to work on. -/
theorem not_settled_append {is js : List Instr} (h : ∀ pushed, ¬Settled pushed js) (pushed : Nat) :
    ¬Settled pushed (is ++ js) := by
  induction is generalizing pushed with
  | nil => exact h pushed
  | cons i is ih =>
    rw [List.cons_append]
    cases i with
    | push v => exact ih (pushed + 1)
    | load => exact ih 0
    | unary op => exact fun settled => ih 0 settled.2
    | binary op => exact fun settled => ih 0 settled.2

theorem Settled.inNormalForm {instrs : List Instr} (h : Settled 0 instrs) :
    InNormalForm instrs := by
  constructor
  · rintro v op ⟨before, after, rfl⟩
    rw [List.append_assoc] at h
    exact not_settled_append (fun pushed => by simp [Settled]) 0 h
  · rintro v w op ⟨before, after, rfl⟩
    rw [List.append_assoc] at h
    refine not_settled_append (fun pushed settled => ?_) 0 h
    have two : pushed + 1 + 1 < 2 := settled.1
    omega

/-- The code of a folded formula that **depends on the variable**, and then other code: what was
pushed before the code of the formula is no operand of an operation in it. -/
theorem settled_lower_foldConstants {t : Expr} (h : t.value? = none) (pushed : Nat)
    (rest : List Instr) :
    Settled pushed (lower t.foldConstants ++ rest) ↔ Settled 0 rest := by
  induction t generalizing pushed rest with
  | const _ | named _ => simp [Expr.value?, Expr.dependsOnX] at h
  | var => rfl
  | unary op a ih =>
    have ha : a.value? = none := by simpa [Expr.value?_unary] using h
    rw [Expr.foldConstants_unary ha, lower, List.append_assoc, ih ha]
    simp [Settled]
  | binary op a b iha ihb =>
    rw [Expr.foldConstants_binary h, lower, List.append_assoc, List.append_assoc]
    -- one operand at least is not a number, so there are never two numbers before the operation
    cases ha : a.value? with
    | none =>
      rw [iha ha]
      cases hb : b.value? with
      | none =>
        rw [ihb hb]
        simp [Settled]
      | some w => simp [Expr.foldConstants_of_value? hb, lower, Settled]
    | some v =>
      have hb : b.value? = none := by simpa [Expr.value?_binary, ha] using h
      simp only [Expr.foldConstants_of_value? ha, lower, List.singleton_append, Settled]
      rw [ihb hb]
      simp [Settled]

/-- **Folded programs are in normal form.** -/
theorem inNormalForm_lower_foldConstants (t : Expr) : InNormalForm (lower t.foldConstants) := by
  refine Settled.inNormalForm ?_
  cases h : t.value? with
  | none => simpa [Settled] using (settled_lower_foldConstants h 0 []).mpr trivial
  | some v => simp [Expr.foldConstants_of_value? h, lower, Settled]

/-! ### Programs that are one number -/

/-- The code of a folded formula is a single number only if the formula has a value. -/
theorem constant?_ofExpr_foldConstants (t : Expr) :
    (ofExpr t.foldConstants).constant? = t.value? := by
  cases h : t.value? with
  | some v => rw [Expr.foldConstants_of_value? h]; rfl
  | none =>
    rw [Option.eq_none_iff_forall_ne_some]
    intro v hv
    -- a number that is pushed last is an operand of whatever comes next
    have single : lower t.foldConstants = [.push v] := constant?_eq_some_iff.mp hv
    have settled := settled_lower_foldConstants h 0 [.unary .neg]
    simp [single, Settled] at settled

theorem constant?_fold_ofExpr (t : Expr) : (ofExpr t).fold.constant? = t.value? := by
  rw [fold_ofExpr, constant?_ofExpr_foldConstants]

/-- A formula has a value of its own exactly if the variable does not occur in it, and then it is
the value at any `x`. -/
theorem value?_eq_some_iff (t : Expr) (x v : Float) :
    t.value? = some v ↔ t.dependsOnX = false ∧ t.eval x = v := by
  cases h : t.dependsOnX with
  | true => simp [Expr.value?, h]
  | false => simp [Expr.value?, h, Expr.eval_eq_eval_of_not_dependsOnX h x 0]

/-- **Folding is complete and changes nothing else.** The folded program of a formula is, instruction
by instruction, the program of the formula with every largest part without the variable replaced by
its value. It is a single number if and only if the variable does not occur at all, and then the
number is the value of the formula at every `x`. In any case no operation remains that has only
numbers to work on. -/
theorem fold_replaces_largest_constant_parts (t : Expr) :
    (ofExpr t).fold = ofExpr t.foldConstants ∧
    (∀ x, t.dependsOnX = false → t.foldConstants = .const (t.eval x)) ∧
    (∀ x v, (ofExpr t).fold.constant? = some v ↔ t.dependsOnX = false ∧ t.eval x = v) ∧
    (∀ c : Curve, c.tree = t → c.isConstant = !t.dependsOnX) ∧
    InNormalForm (ofExpr t).fold.instrs := by
  refine ⟨fold_ofExpr t, fun x constant => ?_, fun x v => ?_, ?_, ?_⟩
  · exact Expr.foldConstants_of_value? ((value?_eq_some_iff t x _).mpr ⟨constant, rfl⟩)
  · rw [constant?_fold_ofExpr, value?_eq_some_iff t x v]
  · rintro c rfl
    rw [Curve.isConstant, c.program_eq, constant?_fold_ofExpr, Expr.value?]
    cases c.tree.dependsOnX <;> rfl
  · rw [fold_ofExpr]
    exact inNormalForm_lower_foldConstants t

end Program

end CurvePlot
