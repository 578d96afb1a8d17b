import CurvePlot.Json.Number

/-!
# The lexemes of JSON

A JSON text is a sequence of brackets, punctuation, words, numbers and strings. A text that
is no JSON is cut into lexemes all the same, up to the place where it breaks: what is broken
becomes a lexeme too, with the `Problem` it causes. A reader that takes lexemes from left to
right therefore meets the first problem first, whether it lies in the text or in what the
text says.

What is **skipped** is read less strictly than what is wanted: a number that is out of range
and a string with half of a surrogate pair are still a number and a string.
-/

namespace CurvePlot.Json

/-- Why a text was not understood. -/
inductive Problem where
  /-- It is not JSON. -/
  | malformed
  /-- It is JSON, or could become JSON, but does not say what is wanted. -/
  | mismatched
  /-- It ends too early. -/
  | truncated
deriving Repr, DecidableEq

/-- A piece of a JSON text. -/
inductive Lexeme where
  | openObject
  | closeObject
  | openArray
  | closeArray
  | colon
  | comma
  | null
  | bool (b : Bool)
  /-- A number, with its value unless that is out of range. -/
  | number (value : Option Number)
  | string (s : String)
  /-- A word that is none of the three, and whether the text ended within it. -/
  | badWord (cutOff : Bool)
  /-- A number that is not written as one, and whether the text ended within it. -/
  | badNumber (cutOff : Bool)
  /-- A string that is not written as one: the problem for whoever wants the string, and the
  problem for whoever skips it, if there is one. -/
  | badString (wanted : Problem) (skipped : Option Problem)
  /-- A character that begins nothing. -/
  | junk
deriving DecidableEq

namespace Lexeme

/-- The problem of a text that is cut off or else malformed. -/
def breakage (cutOff : Bool) : Problem :=
  if cutOff then .truncated else .malformed

/-- The problem of a lexeme where a value of another type is wanted. -/
def mismatch : Lexeme → Problem
  | openObject | openArray | null | bool _ | string _ => .mismatched
  | number value => if value.isSome then .mismatched else .malformed
  | badWord cutOff | badNumber cutOff => breakage cutOff
  | badString wanted _ => wanted
  | closeObject | closeArray | colon | comma | junk => .malformed

end Lexeme

end CurvePlot.Json
