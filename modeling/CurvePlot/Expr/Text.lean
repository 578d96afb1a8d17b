import CurvePlot.Decimal.Layout
import CurvePlot.Expr.Basic

/-!
# Writing a formula down

`Expr.text` writes a tree with a pair of parentheses around every operation, so no reader
needs to know which operator binds more tightly. A number with its sign bit set is
parenthesised like a negation.
-/

namespace CurvePlot

/-- The sign of an operator, or the name of the function. -/
def BinaryOp.symbol : BinaryOp → String
  | add => "+"
  | sub => "-"
  | mul => "*"
  | div => "/"
  | pow => "^"
  | call f => f.name

namespace Expr

/-- The characters of a formula, fully parenthesised. -/
def chars : Expr → List Char
  | const value =>
    if Binary64.signBit value then
      '(' :: (Number.text value ++ [')'])
    else
      Number.text value
  | var => Builtin.variableName.toList
  | named c => c.name.toList
  | unary .neg a => '(' :: '-' :: (a.chars ++ [')'])
  | unary (.call f) a => f.name.toList ++ '(' :: (a.chars ++ [')'])
  | binary (.call f) a b => f.name.toList ++ '(' :: (a.chars ++ ',' :: ' ' :: (b.chars ++ [')']))
  | binary op a b =>
    '(' :: (a.chars ++ ' ' :: (op.symbol.toList ++ ' ' :: (b.chars ++ [')'])))

/-- The **text of a formula**, fully parenthesised. -/
def text (t : Expr) : String :=
  String.ofList t.chars

end Expr

end CurvePlot
