import CurvePlot.Json.Lexeme

/-!
# Skipping a value

A member that a record does not know is passed over, whatever its value is. The brackets that
are open are kept in a list, so a value may nest as deeply as it likes.
-/

namespace CurvePlot.Json

/-- What an open bracket encloses. -/
inductive Bracket where
  | array
  | object
deriving Repr, DecidableEq

/-- How far a value has been skipped. The brackets around what comes next are given innermost
first. -/
inductive Skip where
  /-- A value must come. -/
  | value (around : List Bracket)
  /-- A bracket was opened: its first item must come, or its end. -/
  | opened (b : Bracket) (around : List Bracket)
  /-- The key of a member must come. -/
  | key (around : List Bracket)
  /-- A key was read: a colon must come. -/
  | colon (around : List Bracket)
  /-- An item was read: a comma must come, or the end of the bracket. -/
  | item (b : Bracket) (around : List Bracket)
  /-- The whole value was read. -/
  | done
deriving DecidableEq

namespace Skip

/-- What comes after a value. -/
def afterValue : List Bracket → Skip
  | [] => done
  | b :: around => item b around

/-- Skip the lexeme that a value begins with. -/
def stepValue (around : List Bracket) : Lexeme → Except Problem Skip
  | .openObject => .ok (opened .object around)
  | .openArray => .ok (opened .array around)
  | .null | .bool _ | .number _ | .string _ => .ok (afterValue around)
  | .badWord cutOff => .error (Lexeme.breakage cutOff)
  | .badString _ none => .ok (afterValue around)
  | .badString _ (some problem) => .error problem
  | _ => .error .malformed

/-- Skip a key. -/
def stepKey (around : List Bracket) : Lexeme → Except Problem Skip
  | .string _ => .ok (colon around)
  | .badString _ none => .ok (colon around)
  | .badString _ (some problem) => .error problem
  | _ => .error .malformed

/-- Skip one lexeme. -/
def step : Skip → Lexeme → Except Problem Skip
  | value around, l => stepValue around l
  | opened .array around, .closeArray => .ok (afterValue around)
  | opened .array around, l => stepValue (.array :: around) l
  | opened .object around, .closeObject => .ok (afterValue around)
  | opened .object around, l => stepKey (.object :: around) l
  | key around, l => stepKey around l
  | colon around, .colon => .ok (value around)
  | item .array around, .comma => .ok (value (.array :: around))
  | item .array around, .closeArray => .ok (afterValue around)
  | item .object around, .comma => .ok (key (.object :: around))
  | item .object around, .closeObject => .ok (afterValue around)
  | _, _ => .error .malformed

/-- Skip the rest of a value; the result is what follows it. -/
def run : Skip → List Lexeme → Except Problem (List Lexeme)
  | _, [] => .error .truncated
  | s, l :: rest =>
    match s.step l with
    | .error problem => .error problem
    | .ok done => .ok rest
    | .ok next => run next rest

/-- What follows a skipped value is shorter. -/
theorem length_run_lt {s : Skip} {ls rest : List Lexeme} (h : s.run ls = .ok rest) :
    rest.length < ls.length := by
  induction ls generalizing s with
  | nil => simp [run] at h
  | cons l ls ih =>
    unfold run at h
    split at h
    · simp at h
    · simp only [Except.ok.injEq] at h
      simp [← h]
    · exact Nat.lt_succ_of_lt (ih h)

end Skip

end CurvePlot.Json
