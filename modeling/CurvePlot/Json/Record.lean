import CurvePlot.Json.Scanner
import CurvePlot.Json.Skip

/-!
# Reading records from JSON

A **record** is written as an object, its members in any order and others among them, or as
an array of its fields in a fixed order. A `Schema` lists the fields. Reading goes from left
to right, and the first problem ends it: a field that is given a second time is a mismatch as
soon as its key is read, and a value of the wrong type as soon as it begins.

A `Decoder` reads one value from the head of a list of lexemes, and comes with the fact that
what is left is shorter.
-/

namespace CurvePlot.Json

/-- A value read from the head of a list of lexemes, and what is left of the list. -/
structure Decoded (α : Type) (ls : List Lexeme) where
  value : α
  rest : List Lexeme
  shorter : rest.length < ls.length

/-- A reader of values. -/
abbrev Decoder (α : Type) :=
  (ls : List Lexeme) → Except Problem (Decoded α ls)

namespace Decoded

/-- The same reading seen from a longer list. -/
def within {α : Type} {ls longer : List Lexeme} (d : Decoded α ls)
    (h : ls.length ≤ longer.length) : Decoded α longer :=
  ⟨d.value, d.rest, Nat.lt_of_lt_of_le d.shorter h⟩

/-- The same reading with another value. -/
def setValue {α β : Type} {ls : List Lexeme} (d : Decoded α ls) (b : β) : Decoded β ls :=
  ⟨b, d.rest, d.shorter⟩

end Decoded

namespace Decoder

/-! ### Single lexemes -/

/-- Read a value that is a single lexeme. -/
def scalar {α : Type} (read : Lexeme → Except Problem α) : Decoder α
  | [] => .error .truncated
  | l :: rest =>
    match read l with
    | .error problem => .error problem
    | .ok a => .ok ⟨a, rest, by simp⟩

/-- A string. -/
def string : Decoder String :=
  scalar fun
    | .string s => .ok s
    | l => .error l.mismatch

/-- A number, as a double. -/
def float : Decoder Float :=
  scalar fun
    | .number (some n) => .ok n.toFloat
    | l => .error l.mismatch

/-- A whole number in the signed 64-bit range that is written without point and exponent. -/
def int64 : Decoder Int64 :=
  scalar fun
    | .number (some n) =>
      match n.toInt64? with
      | some i => .ok i
      | none => .error .mismatched
    | l => .error l.mismatch

/-- `true` or `false`. -/
def bool : Decoder Bool :=
  scalar fun
    | .bool b => .ok b
    | l => .error l.mismatch

/-- A string or `null`. -/
def string? : Decoder (Option String) :=
  scalar fun
    | .null => .ok none
    | .string s => .ok (some s)
    | l => .error l.mismatch

/-! ### Lists -/

/-- The items of an array after the first one; those before are given latest first. -/
def itemsAfter {α : Type} (item : Decoder α) (found : List α) : Decoder (List α)
  | [] => .error .truncated
  | .closeArray :: rest => .ok ⟨found.reverse, rest, by simp⟩
  | .comma :: rest =>
    match item rest with
    | .error problem => .error problem
    | .ok first =>
      match itemsAfter item (first.value :: found) first.rest with
      | .error problem => .error problem
      | .ok all =>
        .ok (all.within (Nat.le_succ_of_le (Nat.le_of_lt first.shorter)))
  | _ :: _ => .error .malformed
termination_by ls => ls.length
decreasing_by exact Nat.lt_succ_of_lt first.shorter

/-- An array of items. -/
def list {α : Type} (item : Decoder α) : Decoder (List α)
  | [] => .error .truncated
  | .openArray :: .closeArray :: rest => .ok ⟨[], rest, Nat.lt_succ_of_lt (Nat.lt_succ_self _)⟩
  | .openArray :: rest =>
    match item rest with
    | .error problem => .error problem
    | .ok first =>
      match itemsAfter item [first.value] first.rest with
      | .error problem => .error problem
      | .ok all => .ok (all.within (Nat.le_succ_of_le (Nat.le_of_lt first.shorter)))
  | l :: _ => .error l.mismatch

end Decoder

/-! ### Records -/

/-- A field of a record that is read into a draft of type `σ`. -/
structure Field (σ : Type) where
  /-- The key of the field. -/
  name : String
  /-- Whether a draft has the field already. -/
  given : σ → Bool
  /-- Read the value of the field into a draft. -/
  read : σ → Decoder σ

/-- The field whose value is read by `decoder` and put into a draft by `put`. -/
def Field.of {σ β : Type} (name : String) (given : σ → Bool) (decoder : Decoder β)
    (put : β → σ → σ) : Field σ where
  name := name
  given := given
  read draft ls :=
    match decoder ls with
    | .error problem => .error problem
    | .ok d => .ok (d.setValue (put d.value draft))

/-- How a record of type `α` is read. -/
structure Schema (σ α : Type) where
  /-- The fields, in their order. -/
  fields : List (Field σ)
  /-- The draft without any field. -/
  start : σ
  /-- Whether the array form may leave out fields at the end. -/
  mayBeShort : Bool
  /-- The record of a draft, unless a field is missing. -/
  finish : σ → Option α

namespace Schema

variable {σ α : Type}

/-- Read one member of an object into a draft. -/
def member (s : Schema σ α) (draft : σ) : Decoder σ
  | [] => .error .truncated
  | .string key :: after =>
    match s.fields.find? fun f => f.name == key with
    | some field =>
      if field.given draft then
        .error .mismatched
      else
        match after with
        | [] => .error .truncated
        | .colon :: rest =>
          match field.read draft rest with
          | .error problem => .error problem
          | .ok d => .ok (d.within (Nat.le_add_right _ 2))
        | _ :: _ => .error .malformed
    | none =>
      match after with
      | [] => .error .truncated
      | .colon :: rest =>
        match h : (Skip.value []).run rest with
        | .error problem => .error problem
        | .ok left =>
          .ok ⟨draft, left, by have := Skip.length_run_lt h; simp; omega⟩
      | _ :: _ => .error .malformed
  | .badString wanted _ :: _ => .error wanted
  | _ :: _ => .error .malformed

/-- Read the members of an object after the first one. -/
def membersAfter (s : Schema σ α) (draft : σ) : Decoder σ
  | [] => .error .truncated
  | .closeObject :: rest => .ok ⟨draft, rest, by simp⟩
  | .comma :: rest =>
    match s.member draft rest with
    | .error problem => .error problem
    | .ok first =>
      match membersAfter s first.value first.rest with
      | .error problem => .error problem
      | .ok all => .ok (all.within (Nat.le_succ_of_le (Nat.le_of_lt first.shorter)))
  | _ :: _ => .error .malformed
termination_by ls => ls.length
decreasing_by exact Nat.lt_succ_of_lt first.shorter

/-- Read the members of an object. -/
def members (s : Schema σ α) : Decoder σ
  | .closeObject :: rest => .ok ⟨s.start, rest, by simp⟩
  | ls =>
    match s.member s.start ls with
    | .error problem => .error problem
    | .ok first =>
      match s.membersAfter first.value first.rest with
      | .error problem => .error problem
      | .ok all => .ok (all.within (Nat.le_of_lt first.shorter))

/-- Read the fields of a record from the array form. `first` says that nothing was read
yet. -/
def elements (s : Schema σ α) (first : Bool) (draft : σ) : List (Field σ) → Decoder σ
  | _, [] => .error .truncated
  | [], .closeArray :: rest => .ok ⟨draft, rest, by simp⟩
  | [], _ :: _ => .error .malformed
  | _ :: _, .closeArray :: rest =>
    if s.mayBeShort then .ok ⟨draft, rest, by simp⟩ else .error .mismatched
  | field :: fields, l :: rest =>
    let separated : Except Problem { ls : List Lexeme // ls.length ≤ (l :: rest).length } :=
      if first then .ok ⟨l :: rest, Nat.le_refl _⟩
      else if l = .comma then .ok ⟨rest, Nat.le_succ _⟩
      else .error .malformed
    match separated with
    | .error problem => .error problem
    | .ok ⟨ls, le⟩ =>
      match field.read draft ls with
      | .error problem => .error problem
      | .ok d =>
        match elements s false d.value fields d.rest with
        | .error problem => .error problem
        | .ok all => .ok (all.within (Nat.le_trans (Nat.le_of_lt d.shorter) le))

/-- Turn a draft that was read into the record. -/
def complete (s : Schema σ α) {ls : List Lexeme} (d : Decoded σ ls) :
    Except Problem (Decoded α ls) :=
  match s.finish d.value with
  | some a => .ok (d.setValue a)
  | none => .error .mismatched

/-- Read a record. -/
def decoder (s : Schema σ α) : Decoder α
  | [] => .error .truncated
  | .openObject :: rest =>
    match s.members rest with
    | .error problem => .error problem
    | .ok d => s.complete (d.within (Nat.le_succ _))
  | .openArray :: rest =>
    match s.elements true s.start s.fields rest with
    | .error problem => .error problem
    | .ok d => s.complete (d.within (Nat.le_succ _))
  | l :: _ => .error l.mismatch

/-- Read a record from a text that holds nothing else. -/
def decode (s : Schema σ α) (text : String) : Except Problem α :=
  match s.decoder (Lexeme.scan text) with
  | .error problem => .error problem
  | .ok d => if d.rest = [] then .ok d.value else .error .malformed

end Schema

end CurvePlot.Json
