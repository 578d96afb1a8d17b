import CurvePlot.Builtin

/-!
# Formula trees

An `Expr` is a formula of the variable `x` as a tree. The operator `^` and a call of `pow`
are told apart, so that a formula can be written down the way it was read, although both
compute the same. Evaluating a tree never fails: what has no value gives a NaN or an
infinity.
-/

namespace CurvePlot

/-- An operation on one operand. -/
inductive UnaryOp where
  | neg
  | call (f : UnaryFunction)
deriving Repr, DecidableEq

/-- The value of an operation on one operand. -/
def UnaryOp.apply : UnaryOp → Float → Float
  | neg, a => -a
  | call f, a => f.apply a

/-- An operation on two operands. -/
inductive BinaryOp where
  | add
  | sub
  | mul
  | div
  /-- The operator `^`. -/
  | pow
  | call (f : BinaryFunction)
deriving Repr, DecidableEq

/-- The value of an operation on two operands. -/
def BinaryOp.apply : BinaryOp → Float → Float → Float
  | add, a, b => a + b
  | sub, a, b => a - b
  | mul, a, b => a * b
  | div, a, b => a / b
  | pow, a, b => a.pow b
  | call f, a, b => f.apply a b

/-- A formula of one variable. -/
inductive Expr where
  /-- A number. -/
  | const (value : Float)
  /-- The variable. -/
  | var
  /-- A number with a name. -/
  | named (c : Constant)
  | unary (op : UnaryOp) (operand : Expr)
  | binary (op : BinaryOp) (left right : Expr)
deriving DecidableEq

namespace Expr

/-- The **value** of a formula at `x`. -/
def eval (x : Float) : Expr → Float
  | const value => value
  | var => x
  | named c => c.value
  | unary op operand => op.apply (operand.eval x)
  | binary op left right => op.apply (left.eval x) (right.eval x)

/-- Whether the variable occurs in a formula. -/
def dependsOnX : Expr → Bool
  | const _ => false
  | var => true
  | named _ => false
  | unary _ operand => operand.dependsOnX
  | binary _ left right => left.dependsOnX || right.dependsOnX

/-- How many nodes a tree has. -/
def nodeCount : Expr → Nat
  | const _ => 1
  | var => 1
  | named _ => 1
  | unary _ operand => operand.nodeCount + 1
  | binary _ left right => left.nodeCount + right.nodeCount + 1

/-- How many nodes lie on the longest path from the root to a leaf. -/
def depth : Expr → Nat
  | const _ => 1
  | var => 1
  | named _ => 1
  | unary _ operand => operand.depth + 1
  | binary _ left right => max left.depth right.depth + 1

/-- Whether two formulas are the same tree with equal numbers. Numbers are compared as
doubles are: a NaN differs from itself and `0` equals `-0`. -/
def same : Expr → Expr → Bool
  | const v, const w => v == w
  | var, var => true
  | named c, named d => c = d
  | unary op a, unary op' b => op = op' && a.same b
  | binary op a b, binary op' a' b' => op = op' && a.same a' && b.same b'
  | _, _ => false

/-- A formula whose value does not depend on `x` has the same value everywhere. -/
theorem eval_eq_eval_of_not_dependsOnX {t : Expr} (h : t.dependsOnX = false) (x y : Float) :
    t.eval x = t.eval y := by
  induction t with
  | const _ => rfl
  | var => simp [dependsOnX] at h
  | named _ => rfl
  | unary op a ih => simp only [eval, ih (by simpa [dependsOnX] using h)]
  | binary op a b iha ihb =>
    simp only [dependsOnX, Bool.or_eq_false_iff] at h
    simp only [eval, iha h.1, ihb h.2]

end Expr

end CurvePlot
