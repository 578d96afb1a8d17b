import CurvePlot.Proofs.Program.Folding

/-!
# Programs compute what formulas mean

Running the code of a formula on any stack puts the value of the formula on top of it
(`exec_lower`). So the program of a formula, folded or not, has the value of the formula at
every `x` and on every scratch stack, and any number of programs can be evaluated in turn on
one scratch stack without disturbing one another (`evalInTurn`, `evaluators_agree`).
-/

namespace CurvePlot

namespace Program

theorem exec_append (x : Float) (is js : List Instr) (stack : List Float) :
    exec x (is ++ js) stack = exec x js (exec x is stack) := by
  simp [exec, List.foldl_append]

/-- **Lowering is correct**: the code of a formula puts its value on the stack. -/
theorem exec_lower (t : Expr) (x : Float) (stack : List Float) :
    exec x (lower t) stack = t.eval x :: stack := by
  induction t generalizing stack with
  | const _ | var | named _ => rfl
  | unary op a ih =>
    rw [lower, exec_append, ih]
    rfl
  | binary op a b iha ihb =>
    rw [lower, exec_append, exec_append, iha, ihb]
    rfl

theorem constant?_eq_some_iff {p : Program} {v : Float} :
    p.constant? = some v ↔ p.instrs = [.push v] := by
  constructor
  · intro h
    unfold constant? at h
    split at h
    · rename_i w hw
      rw [hw, Option.some.inj h]
    · cases h
  · intro h
    rw [constant?, h]

/-- The **shortcut** for a program that is one number gives what the machine gives. -/
theorem exec_of_constant? {p : Program} {v : Float} (h : p.constant? = some v) (x : Float)
    (stack : List Float) : exec x p.instrs stack = v :: stack := by
  rw [constant?_eq_some_iff.mp h]
  rfl

/-- A program that leaves one number on the empty stack evaluates to that number, whatever
the scratch stack holds. -/
theorem evalOn_of_exec {p : Program} {x v : Float} (h : exec x p.instrs [] = [v])
    (scratch : List Float) : (p.evalOn x scratch).1 = v := by
  unfold evalOn
  -- the machine starts on an empty stack, and the shortcut needs none
  cases hc : p.constant? with
  | none => simp [h]
  | some w =>
    have hw : [w] = [v] := by rw [← exec_of_constant? hc x [], h]
    exact (List.cons.inj hw).1

theorem evalOn_ofExpr (t : Expr) (x : Float) (scratch : List Float) :
    ((ofExpr t).evalOn x scratch).1 = t.eval x :=
  evalOn_of_exec (exec_lower t x []) scratch

theorem evalOn_fold_ofExpr (t : Expr) (x : Float) (scratch : List Float) :
    ((ofExpr t).fold.evalOn x scratch).1 = t.eval x := by
  rw [fold_ofExpr, evalOn_ofExpr, Expr.eval_foldConstants]

/-! ### One scratch stack for many evaluations -/

/-- Evaluate programs **in turn**, each at its own argument, all on one scratch stack: their
values in order, and what the stack holds in the end. -/
def evalInTurn : List (Program × Float) → List Float → List Float × List Float
  | [], scratch => ([], scratch)
  | (p, x) :: later, scratch =>
    let (value, after) := p.evalOn x scratch
    let (values, last) := evalInTurn later after
    (value :: values, last)

/-- The program of a formula, and whether it is to be folded. -/
def compiled (folded : Bool) (t : Expr) : Program :=
  if folded then (ofExpr t).fold else ofExpr t

theorem evalOn_compiled (folded : Bool) (t : Expr) (x : Float) (scratch : List Float) :
    ((compiled folded t).evalOn x scratch).1 = t.eval x := by
  cases folded with
  | false => exact evalOn_ofExpr t x scratch
  | true => exact evalOn_fold_ofExpr t x scratch

theorem evalInTurn_compiled (jobs : List (Bool × Expr × Float)) (scratch : List Float) :
    (evalInTurn (jobs.map fun job => (compiled job.1 job.2.1, job.2.2)) scratch).1 =
      jobs.map fun job => job.2.1.eval job.2.2 := by
  induction jobs generalizing scratch with
  | nil => rfl
  | cons job later ih =>
    simp only [List.map_cons, evalInTurn]
    -- what one evaluation leaves behind is only a scratch stack to the next one
    rw [evalOn_compiled, ih]

/-- **All evaluators agree.** The value of a formula, of its program and of its folded
program are one and the same number, on a fresh stack and on any scratch stack. So are the
values of any programs evaluated in turn on one scratch stack, and the shortcut for a program
that is one number agrees with running it. -/
theorem evaluators_agree :
    (∀ (t : Expr) (x : Float) (scratch : List Float),
      (ofExpr t).eval x = t.eval x ∧
      ((ofExpr t).evalOn x scratch).1 = t.eval x ∧
      (ofExpr t).fold.eval x = t.eval x ∧
      ((ofExpr t).fold.evalOn x scratch).1 = t.eval x) ∧
    (∀ (jobs : List (Bool × Expr × Float)) (scratch : List Float),
      (evalInTurn (jobs.map fun job => (compiled job.1 job.2.1, job.2.2)) scratch).1 =
        jobs.map fun job => job.2.1.eval job.2.2) ∧
    (∀ (p : Program) (x : Float) (stack : List Float),
      p.constant? = none ∨ ∃ v, p.constant? = some v ∧ exec x p.instrs stack = v :: stack) := by
  refine ⟨fun t x scratch => ⟨?_, ?_, ?_, ?_⟩, evalInTurn_compiled, fun p x stack => ?_⟩
  · exact evalOn_ofExpr t x []
  · exact evalOn_ofExpr t x scratch
  · exact evalOn_fold_ofExpr t x []
  · exact evalOn_fold_ofExpr t x scratch
  · cases h : p.constant? with
    | none => exact .inl rfl
    | some v => exact .inr ⟨v, rfl, exec_of_constant? h x stack⟩

end Program

end CurvePlot
