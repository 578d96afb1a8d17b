import CurvePlot.Expr.Text

/-!
# Postfix programs

A formula is evaluated many times, so its tree is lowered once into a **program**: a list of
instructions for a stack of numbers, operands before their operation. `Program.ofExpr` is the
lowering, `Program.run` the machine. A program that is one single number needs no stack.
-/

namespace CurvePlot

/-- One step of a program. -/
inductive Instr where
  /-- Put a number on the stack. -/
  | push (value : Float)
  /-- Put the value of the variable on the stack. -/
  | load
  /-- Replace the top of the stack. -/
  | unary (op : UnaryOp)
  /-- Replace the two topmost numbers; the top is the right operand. -/
  | binary (op : BinaryOp)
deriving DecidableEq

namespace Instr

/-- What an instruction does to a stack, which is given top first. An operation that lacks
operands does nothing, except that a lone right operand is dropped. -/
def exec (x : Float) : Instr → List Float → List Float
  | push value, stack => value :: stack
  | load, stack => x :: stack
  | unary op, a :: stack => op.apply a :: stack
  | unary _, [] => []
  | binary op, b :: a :: stack => op.apply a b :: stack
  | binary _, [_] => []
  | binary _, [] => []

/-- The height of the stack after an instruction. -/
def heightAfter (height : Nat) : Instr → Nat
  | push _ => height + 1
  | load => height + 1
  | unary _ => height
  | binary _ => height - 1

/-- How an instruction is written. -/
def text : Instr → String
  | push value => "push " ++ String.ofList (Number.text value)
  | load => "load " ++ Builtin.variableName
  | unary .neg => "neg"
  | unary (.call f) => "call " ++ f.name
  | binary .add => "add"
  | binary .sub => "sub"
  | binary .mul => "mul"
  | binary .div => "div"
  | binary .pow => "pow"
  | binary (.call f) => "call " ++ f.name

/-- Whether two instructions are equal, numbers being compared as doubles are. -/
def same : Instr → Instr → Bool
  | push v, push w => v == w
  | load, load => true
  | unary op, unary op' => op = op'
  | binary op, binary op' => op = op'
  | _, _ => false

end Instr

/-- A list of instructions for a stack of numbers. -/
structure Program where
  instrs : List Instr
deriving DecidableEq

namespace Program

/-- The instructions that leave the value of a formula on the stack. -/
def lower : Expr → List Instr
  | .const value => [.push value]
  | .var => [.load]
  | .named c => [.push c.value]
  | .unary op a => lower a ++ [.unary op]
  | .binary op a b => lower a ++ (lower b ++ [.binary op])

/-- The **program of a formula**, operation by operation. -/
def ofExpr (t : Expr) : Program :=
  ⟨lower t⟩

/-- Run instructions on a stack. -/
def exec (x : Float) (instrs : List Instr) (stack : List Float) : List Float :=
  instrs.foldl (fun stack i => i.exec x stack) stack

/-- The greatest height that a stack reaches, starting from a given height. -/
def peak (height : Nat) : List Instr → Nat
  | [] => height
  | i :: rest => max height (peak (i.heightAfter height) rest)

/-- The height of the **stack a program needs**. -/
def maxStack (p : Program) : Nat :=
  peak 0 p.instrs

/-- The value of a program that is a single number. -/
def constant? (p : Program) : Option Float :=
  match p.instrs with
  | [.push value] => some value
  | _ => none

/-- Run a program on a **scratch stack**: the value at `x`, and what the stack holds
afterwards. A program that is a single number leaves the stack alone; any other clears it
first. -/
def evalOn (p : Program) (x : Float) (scratch : List Float) : Float × List Float :=
  match p.constant? with
  | some value => (value, scratch)
  | none =>
    match exec x p.instrs [] with
    | value :: rest => (value, rest)
    | [] => (0.0 / 0.0, [])

/-- The **value of a program** at `x`. -/
def eval (p : Program) (x : Float) : Float :=
  (p.evalOn x []).1

/-- The text of a program. -/
def text (p : Program) : String :=
  "; ".intercalate (p.instrs.map Instr.text)

/-- Whether two programs are equal, numbers being compared as doubles are. -/
def same (p q : Program) : Bool :=
  p.instrs.length = q.instrs.length && (p.instrs.zip q.instrs).all fun (i, j) => i.same j

end Program

end CurvePlot
