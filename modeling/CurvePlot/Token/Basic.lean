import CurvePlot.Decimal.Layout

/-!
# Tokens

A formula is a sequence of numbers, names, the five operators, parentheses and commas. Each
token remembers the **column** of its first character, counted in characters from one, so
that whatever is wrong with it can be pointed at.
-/

namespace CurvePlot

namespace Token

/-- What a token is, apart from where it stands. -/
inductive Kind where
  /-- A number literal, by its value. -/
  | number (value : Float)
  /-- A name, by its letters. -/
  | name (letters : String)
  | plus
  | minus
  | star
  | slash
  | caret
  | lparen
  | rparen
  | comma
deriving DecidableEq

namespace Kind

/-- The token that is a single character. -/
def ofChar? : Char → Option Kind
  | '+' => some plus
  | '-' => some minus
  | '*' => some star
  | '/' => some slash
  | '^' => some caret
  | '(' => some lparen
  | ')' => some rparen
  | ',' => some comma
  | _ => none

/-- A token as it is quoted in a message: a number is written by its value. -/
def text : Kind → String
  | number value => String.ofList (Number.text value)
  | name letters => letters
  | plus => "+"
  | minus => "-"
  | star => "*"
  | slash => "/"
  | caret => "^"
  | lparen => "("
  | rparen => ")"
  | comma => ","

end Kind

end Token

/-- A token and the column of its first character. -/
structure Token where
  kind : Token.Kind
  /-- Counted in characters, from one. -/
  column : Nat
deriving DecidableEq

end CurvePlot
