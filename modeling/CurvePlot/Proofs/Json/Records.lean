import CurvePlot.Proofs.Json.Reading
import CurvePlot.Proofs.Json.Texts

/-!
# Records read from values

A reader takes lexemes, but what it does with the lexemes of a value depends on the value alone:
single values are read by a function of values (`Decoder.Reads`), a member of an object is **noted**
in a draft (`Schema.note?`), and an object is read by noting its members one after the other, whatever
they are (`Schema.toOption_run_record`). A member with another name leaves the draft as it is, since
its value is skipped. The items of an array are the values of the fields, as far as they go
(`Schema.toOption_run_array`).

Which problem ends a reading that fails is left out here: a result is taken for an `Option`.
-/

namespace CurvePlot.Json

variable {α β σ : Type}

theorem toOption_bind {ε : Type} (r : Except ε α) (f : α → Except ε β) :
    (r >>= f).toOption = r.toOption.bind fun a => (f a).toOption := by
  cases r <;> rfl

/-! ### Single values -/

namespace Value

/-- The string that a value is, if it is one. -/
def text? : Value → Option String
  | string meaning => meaning
  | _ => none

/-- The double of the number that a value is, if it is one. -/
def float? : Value → Option Float
  | number (some n) => some n.toFloat
  | _ => none

/-- The signed 64-bit integer that a value is, if it is one. -/
def int64? : Value → Option Int64
  | number (some n) => n.toInt64?
  | _ => none

/-- A number is an integer just if its text is that of the integer. -/
theorem int64?_number_iff {cs : List Char} {t : Numeral} (text : NumberText cs t) (n : Int64) :
    int64? (number t.value?) = some n ↔ cs = (toString n.toInt).toList := by
  have bind : int64? (number t.value?) = t.value?.bind Number.toInt64? := by
    cases t.value? <;> rfl
  rw [bind, t.toInt64?_value?_iff text]

end Value

namespace Decoder

/-- A decoder **reads values** by a function: from the lexemes of a value it reads what the function
gives, if anything, and it leaves what comes after the value. -/
def Reads (d : Decoder α) (read : Value → Option α) : Prop :=
  ∀ v rest, (d.run (v.lexemes ++ rest)).toOption = (read v).map (·, rest)

/-- A decoder of single lexemes looks at what a value begins with, and gives something only where
that is the whole value. -/
theorem reads_scalar {accept : Lexeme → Except Problem α} {read : Value → Option α}
    (h : ∀ v : Value, (accept v.first).toOption = read v)
    (single : ∀ (v : Value) (a : α), read v = some a → v.lexemes = [v.first]) :
    (scalar accept).Reads read := by
  intro v rest
  obtain ⟨ls, hv⟩ := v.exists_lexemes_eq_cons
  have accepted := h v
  rw [hv, List.cons_append, run_scalar]
  cases haccept : accept v.first with
  | error problem =>
    rw [haccept] at accepted
    rw [← accepted]
    rfl
  | ok a =>
    rw [haccept] at accepted
    have whole := single v a accepted.symm
    rw [hv] at whole
    obtain rfl : ls = [] := (List.cons.inj whole).2
    rw [← accepted]
    rfl

theorem string_reads : string.Reads Value.text? := by
  refine reads_scalar (fun v => ?_) fun v a h => ?_
  · cases v with
    | string meaning => cases meaning <;> rfl
    | _ => rfl
  · cases v with
    | string => rfl
    | _ => cases h

theorem float_reads : float.Reads Value.float? := by
  refine reads_scalar (fun v => ?_) fun v a h => ?_
  · cases v with
    | number meaning | string meaning => cases meaning <;> rfl
    | _ => rfl
  · cases v with
    | number => rfl
    | _ => cases h

theorem int64_reads : int64.Reads Value.int64? := by
  refine reads_scalar (fun v => ?_) fun v a h => ?_
  · cases v with
    | number meaning =>
      rcases meaning with _ | n
      · rfl
      · simp only [Value.first, Value.int64?]
        cases n.toInt64? <;> rfl
    | string meaning => cases meaning <;> rfl
    | _ => rfl
  · cases v with
    | number => rfl
    | _ => cases h

end Decoder

/-! ### Fields -/

namespace Field

/-- What a draft becomes when a field reads a value that stands by itself. -/
def take? (field : Field σ) (draft : σ) (v : Value) : Option σ :=
  ((field.read draft).run v.lexemes).toOption.map Prod.fst

/-- A field takes **whole values**: what comes after a value has no bearing on it. -/
def IsWhole (field : Field σ) : Prop :=
  ∀ draft, (field.read draft).Reads (field.take? draft)

variable (name : String) (given : σ → Bool) {decoder : Decoder β} (put : β → σ → σ)
  {read : Value → Option β} (h : decoder.Reads read)
include h

theorem reads_of (draft : σ) :
    ((Field.of name given decoder put).read draft).Reads fun v => (read v).map (put · draft) := by
  intro v rest
  rw [run_read_of, toOption_bind, h]
  beta_reduce
  cases read v <;> rfl

variable {name given put}

theorem take?_of (draft : σ) (v : Value) :
    (Field.of name given decoder put).take? draft v = (read v).map (put · draft) := by
  have alone := reads_of name given put h draft v []
  rw [List.append_nil] at alone
  rw [take?, alone, Option.map_map, Option.map_map]
  rfl

theorem isWhole_of : (Field.of name given decoder put).IsWhole := by
  intro draft v rest
  rw [take?_of h, reads_of name given put h]

end Field

/-! ### Objects -/

namespace Schema

variable (s : Schema σ α)

/-- What a draft becomes when a member of an object is **noted** in it, unless the member is that of a
field that is there already, or that wants another value. -/
def note? (draft : σ) (m : String × Value) : Option σ :=
  match s.fields.find? fun field => field.name == m.1 with
  | some field => if field.given draft then none else field.take? draft m.2
  | none => some draft

theorem note?_of (key : String) {given : σ → Bool} {decoder : Decoder β} {put : β → σ → σ}
    {read : Value → Option β} (h : decoder.Reads read)
    (hfield : s.fields.find? (fun field => field.name == key) =
      some (.of key given decoder put)) (draft : σ) (v : Value) :
    s.note? draft (key, v) = if given draft then none else (read v).map (put · draft) := by
  rw [note?, hfield, ← Field.take?_of h]
  rfl

variable {s}

theorem note?_of_ne {key : String} (h : ∀ field ∈ s.fields, field.name ≠ key) (draft : σ)
    (v : Value) : s.note? draft (key, v) = some draft := by
  have unknown : s.fields.find? (fun field => field.name == key) = none := by
    simpa only [List.find?_eq_none, beq_iff_eq] using h
  rw [note?, unknown]

variable (whole : ∀ field ∈ s.fields, field.IsWhole)
include whole

theorem toOption_run_member (draft : σ) (m : String × Value) (rest : List Lexeme) :
    ((s.member draft).run (.string m.1 :: .colon :: (m.2.lexemes ++ rest))).toOption =
      (s.note? draft m).map (·, rest) := by
  rw [note?]
  cases hfield : s.fields.find? fun field => field.name == m.1 with
  | some field =>
    by_cases given : field.given draft = true
    · rw [Decoder.run, member.eq_def]
      simp only [hfield, given, if_true]
      rfl
    · dsimp only
      rw [s.run_member hfield (by simpa using given), if_neg given]
      exact whole field (List.mem_of_find?_eq_some hfield) draft m.2 rest
  | none =>
    rw [Decoder.run, member.eq_def]
    simp only [hfield]
    split
    · rename_i problem skipped
      rw [Skip.run_value] at skipped
      cases skipped
    · rename_i left skipped
      rw [Skip.run_value] at skipped
      cases skipped
      rfl

/-- **The members of an object** after the first one are noted one after the other. -/
theorem toOption_run_membersAfter (ms : List (String × Value)) (draft : σ) (rest : List Lexeme) :
    ((s.membersAfter draft).run
        (Value.lexemesOfMembers (ms.map fun m => (some m.1, m.2)) ++ rest)).toOption =
      (ms.foldlM s.note? draft).map (·, rest) := by
  induction ms generalizing draft with
  | nil =>
    rw [List.map_nil, Value.lexemesOfMembers, List.singleton_append, run_membersAfter_closeObject]
    rfl
  | cons m ms ih =>
    rw [List.map_cons, Value.lexemesOfMembers, List.cons_append, List.cons_append, List.cons_append,
      List.append_assoc, run_membersAfter_comma, toOption_bind, Lexeme.ofString?,
      toOption_run_member whole, List.foldlM_cons]
    cases s.note? draft m with
    | none => rfl
    | some next => exact ih next

omit whole in
/-- What was read between two brackets becomes the record. -/
theorem toOption_run_decoder {bracket : Lexeme} {reader : Decoder σ}
    (hbracket : ∀ ls, s.decoder.run (bracket :: ls) =
      reader.run ls >>= fun p => s.finished p.1 >>= fun a => .ok (a, p.2))
    {ls rest : List Lexeme} {draft : Option σ}
    (h : (reader.run ls).toOption = draft.map (·, rest)) :
    (s.decoder.run (bracket :: ls)).toOption = (draft.bind s.finish).map (·, rest) := by
  rw [hbracket, toOption_bind, h]
  rcases draft with _ | draft
  · rfl
  · simp only [Option.map_some, Option.bind_some, toOption_bind, finished]
    cases s.finish draft <;> rfl

/-- **An object is read** by noting its members one after the other. -/
theorem toOption_run_record (ms : List (String × Value)) (rest : List Lexeme) :
    (s.decoder.run ((Value.record ms).lexemes ++ rest)).toOption =
      ((ms.foldlM s.note? s.start).bind s.finish).map (·, rest) := by
  rcases ms with _ | ⟨m, ms⟩
  · exact toOption_run_decoder s.run_decoder_openObject rfl
  · rw [Value.record, List.map_cons, Value.lexemes, List.cons_append, List.cons_append,
      List.cons_append, List.append_assoc]
    refine toOption_run_decoder s.run_decoder_openObject ?_
    have another : Lexeme.string m.1 ≠ .closeObject := by simp
    rw [Lexeme.ofString?, s.run_members_cons another, toOption_bind, toOption_run_member whole,
      List.foldlM_cons]
    cases s.note? s.start m with
    | none => rfl
    | some next => exact toOption_run_membersAfter whole ms next rest

/-! ### Arrays -/

omit whole

/-- What a draft becomes when values are read as those of fields, as far as they go. -/
def takeAll? (draft : σ) : List (Field σ) → List Value → Option σ
  | _, [] => some draft
  | [], _ :: _ => none
  | field :: fields, v :: vs => (field.take? draft v).bind fun next => takeAll? next fields vs

theorem toOption_run_elements (short : s.mayBeShort = true) {fields : List (Field σ)}
    (whole : ∀ field ∈ fields, field.IsWhole) (vs : List Value) (draft : σ) (rest : List Lexeme) :
    ((s.elements false draft fields).run (Value.lexemesOfItems vs ++ rest)).toOption =
      (takeAll? draft fields vs).map (·, rest) := by
  induction vs generalizing draft fields with
  | nil =>
    rw [Value.lexemesOfItems, List.singleton_append, s.run_elements_closeArray short]
    cases fields <;> rfl
  | cons v vs ih =>
    rw [Value.lexemesOfItems, List.cons_append, List.append_assoc]
    cases fields with
    | nil => rfl
    | cons field fields =>
      obtain ⟨head, tail⟩ := List.forall_mem_cons.mp whole
      rw [run_elements_comma, toOption_bind, head, takeAll?]
      cases field.take? draft v with
      | none => rfl
      | some next => exact ih tail next

/-- **An array is read** by taking its items for the values of the fields. -/
theorem toOption_run_array (whole : ∀ field ∈ s.fields, field.IsWhole)
    (short : s.mayBeShort = true) (nonempty : s.fields ≠ []) (vs : List Value)
    (rest : List Lexeme) :
    (s.decoder.run ((Value.array vs).lexemes ++ rest)).toOption =
      ((takeAll? s.start s.fields vs).bind s.finish).map (·, rest) := by
  cases vs with
  | nil =>
    rw [Value.lexemes, List.cons_append, List.singleton_append]
    refine toOption_run_decoder s.run_decoder_openArray ?_
    rw [s.run_elements_closeArray short]
    cases s.fields <;> rfl
  | cons v vs =>
    rw [Value.lexemes, List.cons_append, List.append_assoc]
    refine toOption_run_decoder s.run_decoder_openArray ?_
    obtain ⟨field, fields, hfields⟩ := List.exists_cons_of_ne_nil nonempty
    rw [hfields] at whole ⊢
    obtain ⟨head, tail⟩ := List.forall_mem_cons.mp whole
    obtain ⟨ls, hv⟩ := v.exists_lexemes_eq_cons
    have first := head s.start v (Value.lexemesOfItems vs ++ rest)
    rw [hv, List.cons_append] at first ⊢
    rw [s.run_elements_first v.first_ne_closeArray, toOption_bind, first, takeAll?]
    cases field.take? s.start v with
    | none => rfl
    | some next => exact toOption_run_elements short tail vs next rest

/-! ### Texts -/

/-- A text of a value is read as the value is, since nothing comes after it. -/
theorem toOption_decode {v : Value} {body : String} (text : v.HasText body) {result : Option α}
    (h : ∀ rest, (s.decoder.run (v.lexemes ++ rest)).toOption = result.map (·, rest)) :
    (s.decode body).toOption = result := by
  have alone := h []
  rw [List.append_nil] at alone
  rw [s.decode_eq, text.scan, toOption_bind, alone]
  cases result <;> rfl

end Schema

/-! ### What is said of a key -/

/-- The values that the members of an object give to a key. -/
def valuesOf (key : String) (ms : List (String × Value)) : List Value :=
  (ms.filter fun m => m.1 == key).map Prod.snd

theorem valuesOf_cons (key name : String) (v : Value) (ms : List (String × Value)) :
    valuesOf key ((name, v) :: ms) =
      if name = key then v :: valuesOf key ms else valuesOf key ms := by
  by_cases h : name = key <;> simp [valuesOf, h]

/-- What the members of an object **say** of a key: nothing if they do not have it, and what is read
of its value if they have it once. -/
inductive Says (read : Value → Option α) (key : String) (ms : List (String × Value)) :
    Option α → Prop
  | nothing (h : valuesOf key ms = []) : Says read key ms none
  | once {v : Value} {a : α} (h : valuesOf key ms = [v]) (hv : read v = some a) :
    Says read key ms (some a)

/-- The members of an object **misuse** a key if they have it twice, or with a value that cannot be
read. -/
def Misuses (read : Value → Option α) (key : String) (ms : List (String × Value)) : Prop :=
  2 ≤ (valuesOf key ms).length ∨ ∃ v ∈ valuesOf key ms, read v = none

/-- What is known of a field after some values of it were read in turn, if none of them is one too
many. -/
def settle? (read : Value → Option α) : Option α → List Value → Option (Option α)
  | known, [] => some known
  | none, v :: vs => (read v).bind fun a => settle? read (some a) vs
  | some _, _ :: _ => none

variable {read : Value → Option α} {key : String} {ms : List (String × Value)}

theorem settle?_of_says {known : Option α} (h : Says read key ms known) :
    settle? read none (valuesOf key ms) = some known := by
  cases h with
  | nothing h => rw [h, settle?]
  | once h hv => rw [h, settle?, hv, Option.bind_some, settle?]

theorem settle?_of_misuses (h : Misuses read key ms) :
    settle? read none (valuesOf key ms) = none := by
  rw [Misuses] at h
  generalize valuesOf key ms = values at h
  rcases values with _ | ⟨v, _ | ⟨w, vs⟩⟩
  · simp at h
  · have unread : read v = none := by simpa using h
    rw [settle?, unread]
    rfl
  · rw [settle?]
    cases read v <;> rfl

end CurvePlot.Json
