import CurvePlot.Json.Skip
import CurvePlot.Proofs.Failure

/-!
# Values of JSON

A **value** of JSON is a word, a number, a string, or an array or an object of values, nested as
deeply as it likes. It is written as one list of lexemes (`Value.lexemes`), and whoever skips a value
passes over just these and nothing else (`Skip.run_value`).

A number that is out of range is a value, and so is a string with half of a surrogate pair: they have
no meaning that a reader could want, but nothing is wrong with them for whoever skips them.
-/

namespace CurvePlot.Json

/-- A **value** of JSON. -/
inductive Value where
  | null
  | bool (b : Bool)
  /-- A number, with its meaning unless that is out of range. -/
  | number (meaning : Option Number)
  /-- A string, with its meaning unless half of a surrogate pair is in it. -/
  | string (meaning : Option String)
  | array (items : List Value)
  /-- An object: its members, each of which has a string for a key. -/
  | object (members : List (Option String × Value))

/-- The lexeme of a string. -/
def Lexeme.ofString? : Option String → Lexeme
  | some s => .string s
  | none => .badString .malformed none

namespace Value

mutual

/-- The **lexemes of a value**. -/
def lexemes : Value → List Lexeme
  | null => [.null]
  | bool b => [.bool b]
  | number meaning => [.number meaning]
  | string meaning => [.ofString? meaning]
  | array [] => [.openArray, .closeArray]
  | array (v :: items) => .openArray :: (v.lexemes ++ lexemesOfItems items)
  | object [] => [.openObject, .closeObject]
  | object ((key, v) :: members) =>
    .openObject :: .ofString? key :: .colon :: (v.lexemes ++ lexemesOfMembers members)

/-- The lexemes of the items of an array after the first one, and of its end. -/
def lexemesOfItems : List Value → List Lexeme
  | [] => [.closeArray]
  | v :: items => .comma :: (v.lexemes ++ lexemesOfItems items)

/-- The lexemes of the members of an object after the first one, and of its end. -/
def lexemesOfMembers : List (Option String × Value) → List Lexeme
  | [] => [.closeObject]
  | (key, v) :: members =>
    .comma :: .ofString? key :: .colon :: (v.lexemes ++ lexemesOfMembers members)

end

/-- The object of members whose keys are strings with a meaning. -/
def record (members : List (String × Value)) : Value :=
  object (members.map fun m => (some m.1, m.2))

/-- The lexeme that a value begins with. -/
def first : Value → Lexeme
  | null => .null
  | bool b => .bool b
  | number meaning => .number meaning
  | string meaning => .ofString? meaning
  | array _ => .openArray
  | object _ => .openObject

theorem exists_lexemes_eq_cons (v : Value) : ∃ ls, v.lexemes = v.first :: ls := by
  rcases v with _ | b | n | s | ⟨_ | ⟨v, items⟩⟩ | ⟨_ | ⟨⟨name, v⟩, members⟩⟩
  all_goals exact ⟨_, rfl⟩

/-- No value begins where an array ends. -/
theorem first_ne_closeArray (v : Value) : v.first ≠ .closeArray := by
  cases v with
  | string meaning => cases meaning <;> nofun
  | _ => nofun

end Value

/-! ### Skipping -/

namespace Skip

/-- Go on with skipping, unless the whole value was read. -/
def resume : Skip → List Lexeme → Except Problem (List Lexeme)
  | done, rest => .ok rest
  | s, rest => s.run rest

theorem resume_cons {s next : Skip} {l : Lexeme} (h : s.step l = .ok next) (rest : List Lexeme) :
    s.resume (l :: rest) = next.resume rest := by
  have through : s.run (l :: rest) = next.resume rest := by
    rw [run, h]
    cases next <;> rfl
  rw [← through]
  cases s with
  | done => cases h
  | _ => rfl

theorem step_key (around : List Bracket) (name : Option String) :
    (key around).step (.ofString? name) = .ok (colon around) := by
  cases name <;> rfl

/-- The first key of an object is skipped as any other key. -/
theorem step_opened_object (around : List Bracket) (name : Option String) :
    (opened .object around).step (.ofString? name) = .ok (colon (.object :: around)) := by
  cases name <;> rfl

/-- The first item of an array is skipped as any other value. -/
theorem resume_opened_array (around : List Bracket) (v : Value) (rest : List Lexeme) :
    (opened .array around).resume (v.lexemes ++ rest) =
      (value (.array :: around)).resume (v.lexemes ++ rest) := by
  obtain ⟨ls, hv⟩ := v.exists_lexemes_eq_cons
  have same : (opened .array around).step v.first = (value (.array :: around)).step v.first := by
    rw [step, step]
    exact v.first_ne_closeArray
  rw [hv, List.cons_append]
  change (opened .array around).run _ = (value (.array :: around)).run _
  rw [run, run, same]

mutual

/-- **Skipping a value** passes over its lexemes, whatever is around it and comes after it. -/
theorem resume_value : (v : Value) → (around : List Bracket) → (rest : List Lexeme) →
    (value around).resume (v.lexemes ++ rest) = (afterValue around).resume rest
  | .null, around, rest => by
    rw [Value.lexemes]
    exact resume_cons rfl rest
  | .bool b, around, rest => by
    rw [Value.lexemes]
    exact resume_cons rfl rest
  | .number meaning, around, rest => by
    rw [Value.lexemes]
    exact resume_cons rfl rest
  | .string meaning, around, rest => by
    rw [Value.lexemes]
    cases meaning <;> exact resume_cons rfl rest
  | .array [], around, rest => by
    rw [Value.lexemes]
    exact (resume_cons rfl _).trans (resume_cons rfl rest)
  | .array (v :: items), around, rest => by
    rw [Value.lexemes, List.cons_append, List.append_assoc]
    calc
      _ = (opened .array around).resume (v.lexemes ++ (Value.lexemesOfItems items ++ rest)) :=
        resume_cons rfl _
      _ = (item .array around).resume (Value.lexemesOfItems items ++ rest) :=
        (resume_opened_array around v _).trans (resume_value v _ _)
      _ = (afterValue around).resume rest := resume_items items around rest
  | .object [], around, rest => by
    rw [Value.lexemes]
    exact (resume_cons rfl _).trans (resume_cons rfl rest)
  | .object ((name, v) :: members), around, rest => by
    rw [Value.lexemes, List.cons_append, List.cons_append, List.cons_append, List.append_assoc]
    calc
      _ = (opened .object around).resume
            (.ofString? name :: .colon :: (v.lexemes ++ (Value.lexemesOfMembers members ++ rest))) :=
        resume_cons rfl _
      _ = (value (.object :: around)).resume
            (v.lexemes ++ (Value.lexemesOfMembers members ++ rest)) :=
        (resume_cons (step_opened_object around name) _).trans (resume_cons rfl _)
      _ = (item .object around).resume (Value.lexemesOfMembers members ++ rest) :=
        resume_value v _ _
      _ = (afterValue around).resume rest := resume_members members around rest

theorem resume_items : (items : List Value) → (around : List Bracket) → (rest : List Lexeme) →
    (item .array around).resume (Value.lexemesOfItems items ++ rest) =
      (afterValue around).resume rest
  | [], around, rest => by
    rw [Value.lexemesOfItems]
    exact resume_cons rfl rest
  | v :: items, around, rest => by
    rw [Value.lexemesOfItems, List.cons_append, List.append_assoc]
    calc
      _ = (value (.array :: around)).resume (v.lexemes ++ (Value.lexemesOfItems items ++ rest)) :=
        resume_cons rfl _
      _ = (item .array around).resume (Value.lexemesOfItems items ++ rest) := resume_value v _ _
      _ = (afterValue around).resume rest := resume_items items around rest

theorem resume_members : (members : List (Option String × Value)) → (around : List Bracket) →
    (rest : List Lexeme) →
    (item .object around).resume (Value.lexemesOfMembers members ++ rest) =
      (afterValue around).resume rest
  | [], around, rest => by
    rw [Value.lexemesOfMembers]
    exact resume_cons rfl rest
  | (name, v) :: members, around, rest => by
    rw [Value.lexemesOfMembers, List.cons_append, List.cons_append, List.cons_append,
      List.append_assoc]
    calc
      _ = (key (.object :: around)).resume
            (.ofString? name :: .colon :: (v.lexemes ++ (Value.lexemesOfMembers members ++ rest))) :=
        resume_cons rfl _
      _ = (value (.object :: around)).resume
            (v.lexemes ++ (Value.lexemesOfMembers members ++ rest)) :=
        (resume_cons (step_key _ name) _).trans (resume_cons rfl _)
      _ = (item .object around).resume (Value.lexemesOfMembers members ++ rest) :=
        resume_value v _ _
      _ = (afterValue around).resume rest := resume_members members around rest

end

/-- A value that stands by itself is skipped. -/
theorem run_value (v : Value) (rest : List Lexeme) :
    (value []).run (v.lexemes ++ rest) = .ok rest :=
  resume_value v [] rest

end Skip

end CurvePlot.Json
