import CurvePlot.Graph.Request
import CurvePlot.Proofs.Json.Records

/-!
# What a body says of a request

A request can be written in many ways: the members of an object may come in any order and with others
among them, and an array may hold the first few fields. Reading goes from left to right and fills in a
**draft**. What it comes to is the same as if each field were read by itself, from the values that its
key has (`foldlM_note?`), so the order of the members and the members with other keys do not matter,
and an array is read as the object that has its items for the first fields (`takeAll?_fields`).

A field that nothing is said of has its default, and one that something wrong is said of has none: it
makes the body malformed (`fields_determine_request`).
-/

namespace CurvePlot.Graph

open Json (LaidOut LexemeText Misuses Says Value settle? valuesOf)

namespace Request

/-- The keys of a request, in their order. -/
def keys : List String :=
  ["function", "minX", "maxX", "points"]

theorem isWhole_of_mem_fields : ∀ field ∈ schema.fields, field.IsWhole := by
  simp only [schema, List.forall_mem_cons]
  exact ⟨Json.Field.isWhole_of Json.Decoder.string_reads,
    Json.Field.isWhole_of Json.Decoder.float_reads, Json.Field.isWhole_of Json.Decoder.float_reads,
    Json.Field.isWhole_of Json.Decoder.int64_reads, List.forall_mem_nil _⟩

variable (d : Draft) (v : Value)

theorem note?_function : schema.note? d ("function", v) =
    if d.function.isSome then none else v.text?.map fun s => { d with function := some s } :=
  schema.note?_of "function" Json.Decoder.string_reads rfl d v

theorem note?_minX : schema.note? d ("minX", v) =
    if d.minX.isSome then none else v.float?.map fun x => { d with minX := some x } :=
  schema.note?_of "minX" Json.Decoder.float_reads rfl d v

theorem note?_maxX : schema.note? d ("maxX", v) =
    if d.maxX.isSome then none else v.float?.map fun x => { d with maxX := some x } :=
  schema.note?_of "maxX" Json.Decoder.float_reads rfl d v

theorem note?_points : schema.note? d ("points", v) =
    if d.points.isSome then none else v.int64?.map fun n => { d with points := some n } :=
  schema.note?_of "points" Json.Decoder.int64_reads rfl d v

theorem note?_other {name : String} (h : name ∉ keys) : schema.note? d (name, v) = some d := by
  refine Json.Schema.note?_of_ne (fun field hfield => ?_) d v
  have named : field.name ∈ keys := List.mem_map_of_mem (f := Json.Field.name) hfield
  rintro rfl
  exact h named

/-- What is known of a request when all that is said of its fields was read. -/
def settleAll? (d : Draft) (ms : List (String × Value)) : Option Draft := do
  let function ← settle? Value.text? d.function (valuesOf "function" ms)
  let minX ← settle? Value.float? d.minX (valuesOf "minX" ms)
  let maxX ← settle? Value.float? d.maxX (valuesOf "maxX" ms)
  let points ← settle? Value.int64? d.points (valuesOf "points" ms)
  return ⟨function, minX, maxX, points⟩

/-- **Members in any order** make the same draft as if each field were read by itself. -/
theorem foldlM_note? (ms : List (String × Value)) (d : Draft) :
    ms.foldlM schema.note? d = settleAll? d ms := by
  induction ms generalizing d with
  | nil => rfl
  | cons m ms ih =>
    obtain ⟨name, v⟩ := m
    obtain ⟨function, minX, maxX, points⟩ := d
    rw [List.foldlM_cons, settleAll?]
    simp only [Json.valuesOf_cons]
    by_cases known : name ∈ keys
    · simp only [keys, List.mem_cons, List.not_mem_nil, or_false] at known
      rcases known with rfl | rfl | rfl | rfl
      · rw [note?_function]
        cases function <;> cases hv : v.text? <;> simp [settle?, settleAll?, ih, hv]
      · rw [note?_minX]
        cases minX <;> cases hv : v.float? <;> simp [settle?, settleAll?, ih, hv]
      · rw [note?_maxX]
        cases maxX <;> cases hv : v.float? <;> simp [settle?, settleAll?, ih, hv]
      · rw [note?_points]
        cases points <;> cases hv : v.int64? <;> simp [settle?, settleAll?, ih, hv]
    · rw [note?_other _ v known, Option.bind_eq_bind, Option.bind_some, ih, settleAll?]
      simp only [keys, List.mem_cons, List.not_mem_nil, or_false, not_or] at known
      simp [known]

/-- **The items of an array** make the same draft as if they were members. -/
theorem takeAll?_fields {vs : List Value} (few : vs.length ≤ 4) :
    Json.Schema.takeAll? schema.start schema.fields vs =
      settleAll? schema.start (keys.zip vs) := by
  have none_said (key : String) : valuesOf key [] = [] := rfl
  rcases vs with _ | ⟨a, _ | ⟨b, _ | ⟨c, _ | ⟨e, _ | ⟨f, vs⟩⟩⟩⟩⟩
  case nil => rfl
  case cons.cons.cons.cons.cons =>
    simp only [List.length_cons] at few
    omega
  all_goals
    simp [schema, Json.Schema.takeAll?, Json.Field.take?_of Json.Decoder.string_reads,
      Json.Field.take?_of Json.Decoder.float_reads, Json.Field.take?_of Json.Decoder.int64_reads,
      settleAll?, keys, Json.valuesOf_cons, none_said, settle?, Option.map_eq_bind,
      Option.bind_assoc]

/-- There is no field for a fifth item. -/
theorem takeAll?_fields_eq_none {vs : List Value} (many : 4 < vs.length) :
    Json.Schema.takeAll? schema.start schema.fields vs = none := by
  rcases vs with _ | ⟨a, _ | ⟨b, _ | ⟨c, _ | ⟨e, _ | ⟨f, vs⟩⟩⟩⟩⟩
  case cons.cons.cons.cons.cons => simp [schema, Json.Schema.takeAll?]
  all_goals
    simp only [List.length_cons, List.length_nil] at many
    omega

/-- Members that say something of each field, or nothing, make a draft of that. -/
theorem settleAll?_of_says {ms : List (String × Value)} {function : Option String}
    {minX maxX : Option Float} {points : Option Int64}
    (hfunction : Says Value.text? "function" ms function) (hminX : Says Value.float? "minX" ms minX)
    (hmaxX : Says Value.float? "maxX" ms maxX) (hpoints : Says Value.int64? "points" ms points) :
    settleAll? schema.start ms = some ⟨function, minX, maxX, points⟩ := by
  simp only [settleAll?, schema, Json.settle?_of_says hfunction, Json.settle?_of_says hminX,
    Json.settle?_of_says hmaxX, Json.settle?_of_says hpoints, Option.bind_eq_bind, Option.bind_some]
  rfl

/-- Members that misuse a single field make no draft. -/
theorem settleAll?_of_misuses {ms : List (String × Value)}
    (h : Misuses Value.text? "function" ms ∨ Misuses Value.float? "minX" ms ∨
      Misuses Value.float? "maxX" ms ∨ Misuses Value.int64? "points" ms) :
    settleAll? schema.start ms = none := by
  rcases h with h | h | h | h <;>
    simp [settleAll?, schema, Json.settle?_of_misuses h]

/-- What is known of a request depends on the values of its keys alone. -/
theorem settleAll?_congr {ms ns : List (String × Value)}
    (h : ∀ key ∈ keys, valuesOf key ms = valuesOf key ns) (d : Draft) :
    settleAll? d ms = settleAll? d ns := by
  simp only [keys, List.forall_mem_cons] at h
  obtain ⟨function, minX, maxX, points, -⟩ := h
  rw [settleAll?, settleAll?, function, minX, maxX, points]

/-! ### Bodies -/

variable {ms : List (String × Value)} {vs : List Value} {body : String}

/-- The request of which the fields of a draft are known. -/
def ofDraft (d : Draft) : Request where
  function := d.function.getD ""
  minX := d.minX.getD (-10.0)
  maxX := d.maxX.getD 10.0
  points := d.points.getD 100

theorem toOption_ofJson {d : Option Draft}
    (h : (schema.decode body).toOption = d.bind schema.finish) :
    (ofJson body).toOption = d.map ofDraft := by
  have finish : d.bind schema.finish = d.map ofDraft := by
    cases d <;> rfl
  rw [← finish, ← h, ofJson]
  cases schema.decode body <;> rfl

theorem toOption_ofJson_record (text : (Value.record ms).HasText body) :
    (ofJson body).toOption = (settleAll? schema.start ms).map ofDraft := by
  refine toOption_ofJson (Json.Schema.toOption_decode text fun rest => ?_)
  rw [Json.Schema.toOption_run_record isWhole_of_mem_fields, foldlM_note?]

theorem toOption_ofJson_array (text : (Value.array vs).HasText body) :
    (ofJson body).toOption =
      (Json.Schema.takeAll? schema.start schema.fields vs).map ofDraft :=
  toOption_ofJson <| Json.Schema.toOption_decode text <|
    Json.Schema.toOption_run_array isWhole_of_mem_fields rfl (List.cons_ne_nil _ _) vs

theorem eq_ok_iff_toOption {r : Request} :
    ofJson body = .ok r ↔ (ofJson body).toOption = some r := by
  cases ofJson body <;> simp [Except.toOption]

theorem malformed_of_toOption (h : (ofJson body).toOption = none) :
    ∃ problem, ofJson body = .error (.json problem) := by
  rw [ofJson] at h ⊢
  cases hdecode : schema.decode body with
  | error problem => exact ⟨problem, rfl⟩
  | ok r =>
    rw [hdecode] at h
    cases h

theorem agree_of_toOption_eq {other : String}
    (h : (ofJson body).toOption = (ofJson other).toOption) :
    (∃ r, ofJson body = .ok r ∧ ofJson other = .ok r) ∨
      (∃ problem, ofJson body = .error (.json problem)) ∧
        ∃ problem, ofJson other = .error (.json problem) := by
  cases hbody : (ofJson body).toOption with
  | none => exact .inr ⟨malformed_of_toOption hbody, malformed_of_toOption (h ▸ hbody)⟩
  | some r => exact .inl ⟨r, eq_ok_iff_toOption.mpr hbody, eq_ok_iff_toOption.mpr (h ▸ hbody)⟩

/-- **Only the fields matter.** Take any text of an object, with members in any order and any members
with other keys among them, blanks wherever they may stand, and each lexeme in any of its spellings.
If the members say something of a field or nothing, the request has what they say, and the default
where they say nothing. If they have the key of a field twice, or with a value of another type or out
of range, the body is malformed.

A text of an array of up to four values is a request if and only if the objects are that give the
keys these values in turn, and then it is the same request; longer arrays are malformed. A number is
an integer just if its text is that of a signed 64-bit integer, with no point and no exponent. -/
theorem fields_determine_request :
    (∀ (ms : List (String × Value)) (body : String), (Value.record ms).HasText body →
      (∀ function minX maxX points, Says Value.text? "function" ms function →
        Says Value.float? "minX" ms minX → Says Value.float? "maxX" ms maxX →
        Says Value.int64? "points" ms points →
        ofJson body = .ok
          ⟨function.getD "", minX.getD (-10.0), maxX.getD 10.0, points.getD 100⟩) ∧
      (Misuses Value.text? "function" ms ∨ Misuses Value.float? "minX" ms ∨
          Misuses Value.float? "maxX" ms ∨ Misuses Value.int64? "points" ms →
        ∃ problem, ofJson body = .error (.json problem))) ∧
    (∀ (vs : List Value) (body : String), (Value.array vs).HasText body →
      (vs.length ≤ 4 → ∀ (ms : List (String × Value)) (other : String),
        (Value.record ms).HasText other →
        (∀ key ∈ keys, valuesOf key ms = valuesOf key (keys.zip vs)) →
        (∃ r, ofJson body = .ok r ∧ ofJson other = .ok r) ∨
          (∃ problem, ofJson body = .error (.json problem)) ∧
            ∃ problem, ofJson other = .error (.json problem)) ∧
      (4 < vs.length → ∃ problem, ofJson body = .error (.json problem))) ∧
    ∀ (cs : List Char) (t : Json.Numeral), Json.NumberText cs t → ∀ n : Int64,
      Value.int64? (.number t.value?) = some n ↔ cs = (toString n.toInt).toList := by
  refine ⟨fun ms body text => ⟨fun function minX maxX points hfunction hminX hmaxX hpoints => ?_,
    fun h => malformed_of_toOption ?_⟩, fun vs body text => ⟨fun few ms other text' same => ?_,
    fun many => malformed_of_toOption ?_⟩, fun cs t => Value.int64?_number_iff⟩
  · rw [eq_ok_iff_toOption, toOption_ofJson_record text,
      settleAll?_of_says hfunction hminX hmaxX hpoints]
    rfl
  · rw [toOption_ofJson_record text, settleAll?_of_misuses h, Option.map_none]
  · refine agree_of_toOption_eq ?_
    rw [toOption_ofJson_array text, toOption_ofJson_record text', takeAll?_fields few,
      settleAll?_congr same]
  · rw [toOption_ofJson_array text, takeAll?_fields_eq_none many, Option.map_none]

/-- An object with a member that no field has and a line between members, one with a field that has no
value, and an array beside the object of its items, whose members are the other way round. -/
theorem fields_determine_request_interleaved :
    ofJson "\x7b\"note\":[\x7b\x7d],\n\"points\" :7\x7d" = .ok ⟨"", -10.0, 10.0, 7⟩ ∧
      (∃ problem, ofJson "\x7b\"points\":null\x7d" = .error (.json problem)) ∧
      ofJson "[\"x\",7]" = .ok ⟨"x", 7.0, 10.0, 100⟩ := by
  have seven {rest : List Char} (ends : Json.EndsNumber rest) :
      LexemeText rest ['7'] (.number (some (.whole 7))) :=
    .number (.unsigned (Json.isWhole_singleton (c := '7') rfl) .absent .absent) ends
  have interleaved : (Value.record [("note", .array [.object []]),
      ("points", .number (some (.whole 7)))]).HasText
        "\x7b\"note\":[\x7b\x7d],\n\"points\" :7\x7d" := by
    have laidOut : LaidOut _ _ :=
      .lexeme (.punctuation .openObject) <| .lexeme (.stringText _ "note") <|
      .lexeme (.punctuation .colon) <| .lexeme (.punctuation .openArray) <|
      .lexeme (.punctuation .openObject) <| .lexeme (.punctuation .closeObject) <|
      .lexeme (.punctuation .closeArray) <| .lexeme (.punctuation .comma) <|
      .blank (c := '\n') rfl <| .lexeme (.stringText _ "points") <| .blank (c := ' ') rfl <|
      .lexeme (.punctuation .colon) <| .lexeme (seven (Json.endsNumber_cons (by decide) _)) <|
      .lexeme (.punctuation .closeObject) .nil
    exact laidOut
  have without : (Value.record [("points", .null)]).HasText "\x7b\"points\":null\x7d" := by
    have laidOut : LaidOut _ _ :=
      .lexeme (.punctuation .openObject) <| .lexeme (.stringText _ "points") <|
      .lexeme (.punctuation .colon) <| .lexeme .null <| .lexeme (.punctuation .closeObject) .nil
    exact laidOut
  have items : (Value.array [.string (some "x"), .number (some (.whole 7))]).HasText
      "[\"x\",7]" := by
    have laidOut : LaidOut _ _ :=
      .lexeme (.punctuation .openArray) <| .lexeme (.stringText _ "x") <|
      .lexeme (.punctuation .comma) <| .lexeme (seven (Json.endsNumber_cons (by decide) _)) <|
      .lexeme (.punctuation .closeArray) .nil
    exact laidOut
  have turned : (Value.record [("minX", .number (some (.whole 7))),
      ("function", .string (some "x"))]).HasText "\x7b\"minX\":7,\"function\":\"x\"\x7d" := by
    have laidOut : LaidOut _ _ :=
      .lexeme (.punctuation .openObject) <| .lexeme (.stringText _ "minX") <|
      .lexeme (.punctuation .colon) <| .lexeme (seven (Json.endsNumber_cons (by decide) _)) <|
      .lexeme (.punctuation .comma) <| .lexeme (.stringText _ "function") <|
      .lexeme (.punctuation .colon) <| .lexeme (.stringText _ "x") <|
      .lexeme (.punctuation .closeObject) .nil
    exact laidOut
  obtain ⟨objects, arrays, -⟩ := fields_determine_request
  have object := (objects _ _ turned).1 (some "x") (some 7.0) none none (.once rfl rfl)
    (.once rfl (by decide +kernel)) (.nothing rfl) (.nothing rfl)
  refine ⟨(objects _ _ interleaved).1 none none none (some 7) (.nothing rfl) (.nothing rfl)
    (.nothing rfl) (.once rfl rfl), (objects _ _ without).2 ?_, ?_⟩
  · exact .inr (.inr (.inr (.inr ⟨.null, List.mem_singleton.mpr rfl, rfl⟩)))
  · rcases (arrays _ _ items).1 (by decide) _ _ turned (by simp [keys, valuesOf]) with
      ⟨r, array, same⟩ | ⟨-, problem, wrong⟩
    · rw [array, ← same, object]
      rfl
    · rw [object] at wrong
      cases wrong

end Request

end CurvePlot.Graph
