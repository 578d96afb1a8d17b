/-!
# The names a formula may use

A formula knows one variable, two constants, seven functions of one argument and one of two.
Names are matched letter by letter, so upper and lower case differ.

Functions are total on doubles: outside their domain they give a NaN or an infinity, as
`sqrt(-1)` and `log(0)` do.
-/

namespace CurvePlot

/-- A function of one argument. -/
inductive UnaryFunction where
  | sin
  | cos
  | tan
  | sqrt
  /-- The natural logarithm. -/
  | log
  | exp
  | abs
deriving Repr, DecidableEq

namespace UnaryFunction

/-- All functions of one argument. -/
def all : List UnaryFunction :=
  [sin, cos, tan, sqrt, log, exp, abs]

/-- The name a formula calls the function by. -/
def name : UnaryFunction → String
  | sin => "sin"
  | cos => "cos"
  | tan => "tan"
  | sqrt => "sqrt"
  | log => "log"
  | exp => "exp"
  | abs => "abs"

/-- The value of the function. -/
def apply : UnaryFunction → Float → Float
  | sin, a => a.sin
  | cos, a => a.cos
  | tan, a => a.tan
  | sqrt, a => a.sqrt
  | log, a => a.log
  | exp, a => a.exp
  | abs, a => a.abs

end UnaryFunction

/-- A function of two arguments. -/
inductive BinaryFunction where
  /-- The first argument to the power of the second. -/
  | pow
deriving Repr, DecidableEq

namespace BinaryFunction

/-- All functions of two arguments. -/
def all : List BinaryFunction :=
  [pow]

/-- The name a formula calls the function by. -/
def name : BinaryFunction → String
  | pow => "pow"

/-- The value of the function. -/
def apply : BinaryFunction → Float → Float → Float
  | pow, a, b => a.pow b

end BinaryFunction

/-- A number with a name. -/
inductive Constant where
  | pi
  /-- The base of the natural logarithm. -/
  | e
deriving Repr, DecidableEq

namespace Constant

/-- All named numbers. -/
def all : List Constant :=
  [pi, e]

/-- The name of the number. -/
def name : Constant → String
  | pi => "pi"
  | e => "e"

/-- The double nearest to the number. -/
def value : Constant → Float
  | pi => 3.141592653589793
  | e => 2.718281828459045

end Constant

/-- Something that is called with arguments in parentheses. -/
inductive Callable where
  | unary (f : UnaryFunction)
  | binary (f : BinaryFunction)
deriving Repr, DecidableEq

namespace Callable

/-- The name of the function. -/
def name : Callable → String
  | unary f => f.name
  | binary f => f.name

/-- How many arguments a call takes. -/
def arity : Callable → Nat
  | unary _ => 1
  | binary _ => 2

end Callable

/-- What a name in a formula stands for. -/
inductive Builtin where
  /-- The variable of the formula. -/
  | x
  | constant (c : Constant)
  | callable (f : Callable)
deriving Repr, DecidableEq

namespace Builtin

/-- The name of the variable. -/
def variableName : String := "x"

/-- The name that stands for a builtin. -/
def name : Builtin → String
  | x => variableName
  | constant c => c.name
  | callable f => f.name

/-- Everything that has a name. -/
def all : List Builtin :=
  x :: Constant.all.map constant
    ++ UnaryFunction.all.map (fun f => callable (.unary f))
    ++ BinaryFunction.all.map (fun f => callable (.binary f))

/-- The builtin of a given name, if the name is known. -/
def ofName? (name : String) : Option Builtin :=
  all.find? fun b => b.name == name

/-- How many arguments a call takes; the variable and the constants are not called. -/
def arity? : Builtin → Option Nat
  | callable f => some f.arity
  | _ => none

/-- No two builtins share a name: each is found under its own. -/
theorem ofName?_name (b : Builtin) : ofName? b.name = some b := by
  rcases b with _ | c | f
  · decide
  · cases c <;> decide
  · rcases f with f | f <;> cases f <;> decide

/-- Only a builtin's own name finds it. -/
theorem name_of_ofName? {s : String} {b : Builtin} (h : ofName? s = some b) : b.name = s := by
  simpa using List.find?_some h

end Builtin

end CurvePlot
