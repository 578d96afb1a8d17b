import CurvePlot.Decimal.Basic

/-!
# Number literals

The texts that are read as unsigned decimals: digits with at most one point among, before
or after them, at least one digit in all, and then perhaps an exponent, which has at least
one digit of its own. `Decimal.ofLiteral?` reads the whole of its text or nothing.

`Number.ofText?` is the reader for a number given on a command line: a literal or one of the
words for infinity and NaN, after an optional sign.
-/

namespace CurvePlot

namespace Decimal

/-- The value of a nonempty run of digits that is the whole text. -/
def wholeDigits? (cs : List Char) : Option Nat :=
  if cs ≠ [] ∧ cs.all Char.isDigit then some (ofDigits cs) else none

/-- What may follow the significand of a literal: nothing, or an exponent. -/
def exponent? : List Char → Option Int
  | [] => some 0
  | c :: rest =>
    if c = 'e' ∨ c = 'E' then
      match rest with
      | '+' :: digits => (wholeDigits? digits).map fun n => (n : Int)
      | '-' :: digits => (wholeDigits? digits).map fun n => -(n : Int)
      | digits => (wholeDigits? digits).map fun n => (n : Int)
    else
      none

/-- The digits after a point, if a point comes first, and what is left then. -/
def fractionOf : List Char → List Char × List Char
  | '.' :: rest => (rest.takeWhile Char.isDigit, rest.dropWhile Char.isDigit)
  | rest => ([], rest)

/-- The decimal that an unsigned literal spells. -/
def ofLiteral? (cs : List Char) : Option Decimal :=
  let whole := cs.takeWhile Char.isDigit
  let (fraction, afterFraction) := fractionOf (cs.dropWhile Char.isDigit)
  if whole ++ fraction = [] then
    none
  else
    (exponent? afterFraction).map fun e =>
      ⟨ofDigits (whole ++ fraction), e - fraction.length⟩

end Decimal

namespace Number

/-- The double that an unsigned number text spells: a literal, or a word for infinity or
NaN in any case. -/
def ofUnsigned? (cs : List Char) : Option Float :=
  let word := cs.map Char.toLower
  if word = ['i', 'n', 'f'] ∨ word = ['i', 'n', 'f', 'i', 'n', 'i', 't', 'y'] then
    some (1.0 / 0.0)
  else if word = ['n', 'a', 'n'] then
    some (0.0 / 0.0)
  else
    (Decimal.ofLiteral? cs).map Decimal.toFloat

/-- The double that a number text spells, with an optional sign in front. -/
def ofText? : List Char → Option Float
  | '-' :: cs => (ofUnsigned? cs).map fun v => -v
  | '+' :: cs => ofUnsigned? cs
  | cs => ofUnsigned? cs

end Number

end CurvePlot
