import CurvePlot.Decimal.Literal
import CurvePlot.ParseError
import CurvePlot.Text.Blank

/-!
# Cutting a formula into tokens

From left to right, separators are passed over and the longest lexeme is taken: an operator
or a bracket, a name, or a number. A number takes in every digit and point that follows, and
an exponent only if the exponent has a digit, so that `2e` is a number and a name while
`1.2.3` is one lexeme that spells no number.
-/

namespace CurvePlot

namespace Token

/-- Whether a character may stand in the significand of a number. -/
def isNumeral (c : Char) : Bool :=
  c.isDigit || c = '.'

/-- Whether a character may begin a name. -/
def isNameStart (c : Char) : Bool :=
  c.isAlpha || c = '_'

/-- Whether a character may continue a name. -/
def isNamePart (c : Char) : Bool :=
  c.isAlphanum || c = '_'

/-- The length of the run of digits at the head of a text. -/
def digitRun (cs : List Char) : Nat :=
  (cs.takeWhile Char.isDigit).length

/-- The length of the exponent at the head of a text: zero unless it has a digit. -/
def exponentLength : List Char → Nat
  | c :: rest =>
    if c = 'e' ∨ c = 'E' then
      match rest with
      | sign :: digits =>
        if sign = '+' ∨ sign = '-' then
          if digitRun digits = 0 then 0 else 2 + digitRun digits
        else
          if digitRun rest = 0 then 0 else 1 + digitRun rest
      | [] => 0
    else
      0
  | [] => 0

/-- The length of the number lexeme at the head of a text. -/
def numberLength (cs : List Char) : Nat :=
  let significand := (cs.takeWhile isNumeral).length
  significand + exponentLength (cs.drop significand)

/-- The finite number that a lexeme spells. -/
def numberValue? (literal : List Char) : Option Float :=
  (Decimal.ofLiteral? literal).map Decimal.toFloat |>.filter Float.isFinite

/-- The token kind at the head of the text `c :: rest`, and how many characters of `rest`
belong to it. -/
def lexeme (column : Nat) (c : Char) (rest : List Char) : Except ParseError (Kind × Nat) :=
  match Kind.ofChar? c with
  | some kind => .ok (kind, 0)
  | none =>
    if isNumeral c then
      let length := numberLength (c :: rest)
      let literal := (c :: rest).take length
      match numberValue? literal with
      | some value => .ok (.number value, length - 1)
      | none => .error (.invalidNumber (String.ofList literal) column)
    else if isNameStart c then
      let more := rest.takeWhile isNamePart
      .ok (.name (String.ofList (c :: more)), more.length)
    else
      .error (.unexpectedCharacter c column)

/-- The tokens of a text whose first character stands at `column`, after those already
found, which are given latest first. -/
def scanFrom (column : Nat) (found : List Token) : List Char → Except ParseError (List Token)
  | [] => .ok found.reverse
  | c :: rest =>
    if Text.isSeparator c then
      scanFrom (column + 1) found rest
    else
      match lexeme column c rest with
      | .error cause => .error cause
      | .ok (kind, more) => scanFrom (column + 1 + more) (⟨kind, column⟩ :: found) (rest.drop more)
termination_by cs => cs.length
decreasing_by
  · simp
  · simp only [List.length_drop, List.length_cons]; omega

/-- The **tokens of a formula**, or the first thing in it that is none. -/
def scan (source : String) : Except ParseError (List Token) :=
  scanFrom 1 [] source.toList

end Token

end CurvePlot
