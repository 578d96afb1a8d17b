import CurvePlot.Json.Record
import CurvePlot.Proofs.Failure

/-!
# Reading records, step by step

A decoder comes with the fact that it leaves less than it was given, which is what makes reading
end. What it reads does not depend on that fact, so it is forgotten here: `Decoder.run` gives the
value and the rest alone, and each decoder is put in terms of the runs of its parts. A list is its
items one after the other, and an object its members, each of which is a key and the value of its
field.
-/

namespace CurvePlot.Json

namespace Decoder

variable {α : Type}

/-- What a decoder reads from the head of a list of lexemes, and what it leaves. -/
def run (d : Decoder α) (ls : List Lexeme) : Except Problem (α × List Lexeme) :=
  (d ls).map fun r => (r.value, r.rest)

theorem run_scalar (read : Lexeme → Except Problem α) (l : Lexeme) (rest : List Lexeme) :
    (scalar read).run (l :: rest) = read l >>= fun a => .ok (a, rest) := by
  rw [run, scalar]
  cases read l <;> rfl

/-! ### Lists -/

variable (item : Decoder α) (found : List α)

theorem run_itemsAfter_closeArray (rest : List Lexeme) :
    (itemsAfter item found).run (.closeArray :: rest) = .ok (found.reverse, rest) := by
  rw [run, itemsAfter]
  rfl

theorem run_itemsAfter_comma (ls : List Lexeme) :
    (itemsAfter item found).run (.comma :: ls) =
      item.run ls >>= fun p => (itemsAfter item (p.1 :: found)).run p.2 := by
  rw [run, itemsAfter, run]
  cases item ls with
  | error problem => rfl
  | ok first =>
    simp only [Except.map, ok_bind, run]
    cases itemsAfter item (first.value :: found) first.rest <;> rfl

theorem run_list_empty (rest : List Lexeme) :
    (list item).run (.openArray :: .closeArray :: rest) = .ok ([], rest) := by
  rw [run, list]
  rfl

theorem run_list_cons {l : Lexeme} (hl : l ≠ .closeArray) (ls : List Lexeme) :
    (list item).run (.openArray :: l :: ls) =
      item.run (l :: ls) >>= fun p => (itemsAfter item [p.1]).run p.2 := by
  rw [run, list, run]
  · cases item (l :: ls) with
    | error problem => rfl
    | ok first =>
      simp only [Except.map, ok_bind, run]
      cases itemsAfter item [first.value] first.rest <;> rfl
  · rintro rest ⟨⟩
    exact hl rfl

end Decoder

/-! ### Records -/

variable {σ α β : Type}

theorem Field.run_read_of (name : String) (given : σ → Bool) (decoder : Decoder β)
    (put : β → σ → σ) (draft : σ) (ls : List Lexeme) :
    ((Field.of name given decoder put).read draft).run ls =
      decoder.run ls >>= fun p => .ok (put p.1 draft, p.2) := by
  simp only [Decoder.run, Field.of]
  cases decoder ls <;> rfl

namespace Schema

variable (s : Schema σ α)

/-- The member of a field that was not given before is the value of the field. -/
theorem run_member {key : String} {field : Field σ}
    (hfield : s.fields.find? (fun f => f.name == key) = some field) {draft : σ}
    (new : field.given draft = false) (ls : List Lexeme) :
    (s.member draft).run (.string key :: .colon :: ls) = (field.read draft).run ls := by
  rw [Decoder.run, member.eq_def, Decoder.run]
  simp only [hfield, new]
  cases field.read draft ls <;> rfl

theorem run_membersAfter_closeObject (draft : σ) (rest : List Lexeme) :
    (s.membersAfter draft).run (.closeObject :: rest) = .ok (draft, rest) := by
  rw [Decoder.run, membersAfter]
  rfl

/-- A comma leads to another member, and to the members after that. -/
theorem run_membersAfter_comma (draft : σ) (ls : List Lexeme) :
    (s.membersAfter draft).run (.comma :: ls) =
      (s.member draft).run ls >>= fun p => (s.membersAfter p.1).run p.2 := by
  rw [Decoder.run, membersAfter, Decoder.run]
  cases s.member draft ls with
  | error problem => rfl
  | ok first =>
    simp only [Except.map, ok_bind, Decoder.run]
    cases s.membersAfter first.value first.rest <;> rfl

/-- Where an object does not end at once, there is a first member. -/
theorem run_members_cons {l : Lexeme} (hl : l ≠ .closeObject) (ls : List Lexeme) :
    s.members.run (l :: ls) =
      (s.member s.start).run (l :: ls) >>= fun p => (s.membersAfter p.1).run p.2 := by
  rw [Decoder.run, members, Decoder.run]
  · cases s.member s.start (l :: ls) with
    | error problem => rfl
    | ok first =>
      simp only [Except.map, ok_bind, Decoder.run]
      cases s.membersAfter first.value first.rest <;> rfl
  · rintro rest ⟨⟩
    exact hl rfl

/-- A field that is given after other members is read, and then the members after it. -/
theorem run_membersAfter_field {key : String} {field : Field σ}
    (hfield : s.fields.find? (fun f => f.name == key) = some field) {draft : σ}
    (new : field.given draft = false) (ls : List Lexeme) :
    (s.membersAfter draft).run (.comma :: .string key :: .colon :: ls) =
      (field.read draft).run ls >>= fun p => (s.membersAfter p.1).run p.2 := by
  rw [run_membersAfter_comma, s.run_member hfield new]

/-- A field that is given first is read, and then the members after it. -/
theorem run_members_field {key : String} {field : Field σ}
    (hfield : s.fields.find? (fun f => f.name == key) = some field)
    (new : field.given s.start = false) (ls : List Lexeme) :
    s.members.run (.string key :: .colon :: ls) =
      (field.read s.start).run ls >>= fun p => (s.membersAfter p.1).run p.2 := by
  have another : Lexeme.string key ≠ .closeObject := by simp
  rw [s.run_members_cons another, s.run_member hfield new]

/-- The first item of an array is the value of the first field. -/
theorem run_elements_first {l : Lexeme} (hl : l ≠ .closeArray) (draft : σ) (field : Field σ)
    (fields : List (Field σ)) (ls : List Lexeme) :
    (s.elements true draft (field :: fields)).run (l :: ls) =
      (field.read draft).run (l :: ls) >>= fun p => (s.elements false p.1 fields).run p.2 := by
  rw [Decoder.run, elements, Decoder.run]
  · simp only [if_true]
    cases field.read draft (l :: ls) with
    | error problem => rfl
    | ok d =>
      simp only [Except.map, ok_bind, Decoder.run]
      cases s.elements false d.value fields d.rest <;> rfl
  · exact hl

/-- A comma leads to the value of the next field. -/
theorem run_elements_comma (draft : σ) (field : Field σ) (fields : List (Field σ))
    (ls : List Lexeme) :
    (s.elements false draft (field :: fields)).run (.comma :: ls) =
      (field.read draft).run ls >>= fun p => (s.elements false p.1 fields).run p.2 := by
  rw [Decoder.run, elements, Decoder.run]
  · simp only [Bool.false_eq_true, if_false, if_true]
    cases field.read draft ls with
    | error problem => rfl
    | ok d =>
      simp only [Except.map, ok_bind, Decoder.run]
      cases s.elements false d.value fields d.rest <;> rfl
  · nofun

/-- An array may end before all fields have values, if the record allows it. -/
theorem run_elements_closeArray (short : s.mayBeShort = true) (first : Bool) (draft : σ)
    (fields : List (Field σ)) (rest : List Lexeme) :
    (s.elements first draft fields).run (.closeArray :: rest) = .ok (draft, rest) := by
  rw [Decoder.run]
  cases fields with
  | nil => rfl
  | cons field fields =>
    rw [elements, if_pos short]
    rfl

/-- A draft that was read becomes the record, if no field is missing. -/
def finished (draft : σ) : Except Problem α :=
  match s.finish draft with
  | some a => .ok a
  | none => .error .mismatched

theorem run_decoder_openObject (ls : List Lexeme) :
    s.decoder.run (.openObject :: ls) =
      s.members.run ls >>= fun p => s.finished p.1 >>= fun a => .ok (a, p.2) := by
  rw [Decoder.run, decoder, Decoder.run]
  cases s.members ls with
  | error problem => rfl
  | ok d =>
    simp only [complete, Decoded.within, Except.map, ok_bind, finished]
    cases s.finish d.value <;> rfl

theorem run_decoder_openArray (ls : List Lexeme) :
    s.decoder.run (.openArray :: ls) =
      (s.elements true s.start s.fields).run ls >>= fun p =>
        s.finished p.1 >>= fun a => .ok (a, p.2) := by
  rw [Decoder.run, decoder, Decoder.run]
  cases s.elements true s.start s.fields ls with
  | error problem => rfl
  | ok d =>
    simp only [complete, Decoded.within, Except.map, ok_bind, finished]
    cases s.finish d.value <;> rfl

theorem decode_eq (text : String) :
    s.decode text = s.decoder.run (Lexeme.scan text) >>= fun p =>
      if p.2 = [] then .ok p.1 else .error .malformed := by
  rw [decode, Decoder.run]
  cases s.decoder (Lexeme.scan text) <;> rfl

end Schema

end CurvePlot.Json
