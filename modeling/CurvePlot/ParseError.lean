import CurvePlot.Token.Basic

/-!
# What can be wrong with a formula

Each constructor of `ParseError` is one cause, with the columns and names that tell where it
lies; `ParseError.message` words it.
-/

namespace CurvePlot

namespace ParseError

/-- What could have stood where an unexpected token stands. -/
inductive Expectation where
  | operand
  | closingParen
  | operatorOrEnd
deriving Repr, DecidableEq

/-- How an expectation is worded. -/
def Expectation.text : Expectation → String
  | operand => "an operand"
  | closingParen => "')'"
  | operatorOrEnd => "an operator or end of expression"

end ParseError

/-- Why a formula was refused. -/
inductive ParseError where
  /-- There is nothing but separators. -/
  | empty
  /-- A character that begins no token. -/
  | unexpectedCharacter (c : Char) (column : Nat)
  /-- A run of digits and points that spells no finite number. -/
  | invalidNumber (literal : String) (column : Nat)
  /-- A name that stands for nothing. -/
  | unknownName (name : String) (column : Nat)
  /-- A token where something else had to stand. -/
  | unexpectedToken (found : Token.Kind) (column : Nat) (expected : ParseError.Expectation)
  /-- The formula ends where an operand had to stand. -/
  | unexpectedEnd
  /-- A parenthesis that is never closed. -/
  | unclosedParen (column : Nat)
  /-- A closing parenthesis without an opening one. -/
  | unmatchedParen (column : Nat)
  /-- A call with too few or too many arguments. -/
  | argumentCount (name : String) (expected : Nat) (got : Nat)
  /-- The name of a function without a call. -/
  | missingCall (name : String) (column : Nat)
  /-- A call of something that is no function. -/
  | notCallable (name : String) (column : Nat)
  /-- More levels than are allowed. -/
  | tooDeep (limit : Nat)
deriving DecidableEq

namespace ParseError

/-- The wording of a parse error. -/
def message : ParseError → String
  | empty => "Expression is empty"
  | unexpectedCharacter c column => s!"Unexpected character '{c}' at column {column}"
  | invalidNumber literal column => s!"Invalid number literal '{literal}' at column {column}"
  | unknownName name column => s!"Unknown identifier '{name}' at column {column}"
  | unexpectedToken found column expected =>
    s!"Unexpected '{found.text}' at column {column}, expected {expected.text}"
  | unexpectedEnd => s!"Unexpected end of expression, expected {Expectation.operand.text}"
  | unclosedParen column => s!"Unclosed '(' at column {column}"
  | unmatchedParen column => s!"Unmatched ')' at column {column}"
  | argumentCount name expected got =>
    s!"Function '{name}' expects {expected} argument(s), got {got}"
  | missingCall name column => s!"'{name}' at column {column} must be followed by '('"
  | notCallable name column => s!"'{name}' at column {column} is not a function"
  | tooDeep limit => s!"Expression nests deeper than {limit} levels"

end ParseError

end CurvePlot
