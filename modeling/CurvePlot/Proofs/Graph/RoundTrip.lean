import CurvePlot.Graph.Response
import CurvePlot.Proofs.Json.Numerals
import CurvePlot.Proofs.Json.Reading

/-!
# What is written is read back

A request and a response are written as JSON texts, and both can be read. The texts are cut into the
lexemes that they were written from (`Request.scan_toJson`, `Response.scan_toJson`), and reading
these gives back every string, every integer, every truth value and every list as it was. Doubles
are another matter: the reader computes them in double arithmetic, so it may miss one by a unit in
the last place, and what is no number is not written as one. So what is read is the same but for
**what is read of its doubles** (`Request.ofJson_toJson`, `Response.ofJson_toJson`), and it is the
same altogether just if these read back.
-/

namespace CurvePlot

namespace Json

/-! ### Doubles -/

/-- The lexeme that the text of a double is. -/
def numberLexeme (v : Float) : Lexeme :=
  (Lexeme.scan (String.ofList (numberText v))).headD .junk

/-- What is read where a double was written. -/
def reread (v : Float) : Except Problem Float :=
  (Decoder.float.run (Lexeme.scan (String.ofList (numberText v)))).map Prod.fst

/-- A double **reads back**: its text, read as a double, gives the double again, bit for bit, and
leaves nothing. -/
def ReadsBack (v : Float) : Prop :=
  Decoder.float.run (Lexeme.scan (String.ofList (numberText v))) = .ok (v, [])

instance : DecidablePred ReadsBack :=
  fun v => inferInstanceAs
    (Decidable (Decoder.float.run (Lexeme.scan (String.ofList (numberText v))) = .ok (v, [])))

/-- The text of a double is one lexeme, whatever comes after it: a number if the double is finite,
and the word for nothing if it is not. -/
theorem numberLexeme_spec (v : Float) :
    (∀ rest, EndsNumber rest → Lexeme.Spells (numberText v) [numberLexeme v] rest) ∧
      (v.isFinite = true → ∃ n, numberLexeme v = .number n) ∧
      (v.isFinite = false → numberLexeme v = .null) := by
  obtain ⟨l, spells, cases⟩ := Lexeme.exists_spells_numberText v
  have whole : numberLexeme v = l := by
    rw [numberLexeme, (spells [] endsNumber_nil).scan]
    rfl
  rw [whole]
  exact ⟨spells, cases⟩

theorem Lexeme.Spells.numberText (v : Float) {rest : List Char} (ends : EndsNumber rest) :
    Spells (numberText v) [numberLexeme v] rest :=
  (numberLexeme_spec v).1 rest ends

theorem scan_numberText (v : Float) :
    Lexeme.scan (String.ofList (numberText v)) = [numberLexeme v] :=
  (Lexeme.Spells.numberText v endsNumber_nil).scan

/-- What is read of a double does not depend on what comes after it. -/
theorem run_float_numberLexeme (v : Float) (rest : List Lexeme) :
    Decoder.float.run (numberLexeme v :: rest) = reread v >>= fun a => .ok (a, rest) := by
  rw [reread, scan_numberText, Decoder.float, Decoder.run_scalar, Decoder.run_scalar]
  split <;> rfl

theorem readsBack_iff {v : Float} : ReadsBack v ↔ reread v = .ok v := by
  have run := run_float_numberLexeme v []
  rw [ReadsBack, scan_numberText, run]
  cases reread v <;> simp

/-- The reader's arithmetic misses some doubles, such as the one nearest to an eleventh. -/
example : ReadsBack (-0.0) ∧ ReadsBack 5e-324 ∧ ¬ReadsBack 0.09090909090909091 := by
  decide +kernel

/-- A NaN or an infinity is written as the word for nothing, which is no number. -/
theorem reread_of_not_isFinite {v : Float} (h : v.isFinite = false) :
    reread v = .error .mismatched := by
  rw [reread, scan_numberText, (numberLexeme_spec v).2.2 h]
  rfl

end Json

open Json (Lexeme numberLexeme reread ReadsBack)

namespace Graph

namespace Request

/-- The lexemes of a request. -/
def lexemes (r : Request) : List Lexeme :=
  [.openObject, .string "function", .colon, .string r.function,
    .comma, .string "minX", .colon, numberLexeme r.minX,
    .comma, .string "maxX", .colon, numberLexeme r.maxX,
    .comma, .string "points", .colon, .number (some (.whole r.points.toInt)), .closeObject]

/-- **The text of a request** is made of its lexemes. -/
theorem scan_toJson (r : Request) : Lexeme.scan r.toJson = r.lexemes := by
  have function (rest : List Char) := Lexeme.Spells.key rest .openObject "function"
  have minX (rest : List Char) := Lexeme.Spells.key rest .comma "minX"
  have maxX (rest : List Char) := Lexeme.Spells.key rest .comma "maxX"
  have points (rest : List Char) := Lexeme.Spells.key rest .comma "points"
  have comma (rest : List Char) : Json.EndsNumber (',' :: rest) :=
    Json.endsNumber_cons (by decide) rest
  exact Lexeme.Spells.scan <|
    (function _).append (.stringText _ r.function) |>.append (minX _)
      |>.append (.numberText r.minX (comma _)) |>.append (maxX _)
      |>.append (.numberText r.maxX (comma _)) |>.append (points _)
      |>.append (.integer r.points (Json.endsNumber_cons (by decide) []))
      |>.append (.punctuation .closeObject [])

/-- A request whose bounds are replaced by what is read of them. -/
def reread (r : Request) : Except Json.Problem Request := do
  let minX ← Json.reread r.minX
  let maxX ← Json.reread r.maxX
  return { r with minX, maxX }

theorem toInt64?_whole (n : Int64) : (Json.Number.whole n.toInt).toInt64? = some n :=
  Json.Number.toInt64?_whole_eq_some_iff.mpr rfl

/-- **What is read of a request** that was written is the request, but for what is read of its
bounds. -/
theorem ofJson_toJson (r : Request) : ofJson r.toJson = r.reread.mapError .json := by
  have read : schema.decode r.toJson = r.reread := by
    rw [Json.Schema.decode_eq, scan_toJson, lexemes, reread, Json.Schema.run_decoder_openObject,
      Json.Schema.run_members_field _ rfl rfl, Json.Field.run_read_of, Json.Decoder.string,
      Json.Decoder.run_scalar, ok_bind, ok_bind, ok_bind,
      Json.Schema.run_membersAfter_field _ rfl rfl, Json.Field.run_read_of,
      Json.run_float_numberLexeme]
    rcases Json.reread r.minX with problem | minX
    · rfl
    rw [ok_bind, ok_bind, ok_bind, ok_bind, Json.Schema.run_membersAfter_field _ rfl rfl,
      Json.Field.run_read_of, Json.run_float_numberLexeme]
    rcases Json.reread r.maxX with problem | maxX
    · rfl
    rw [ok_bind, ok_bind, ok_bind, ok_bind, Json.Schema.run_membersAfter_field _ rfl rfl,
      Json.Field.run_read_of, Json.Decoder.int64, Json.Decoder.run_scalar]
    simp only [toInt64?_whole, ok_bind, Json.Schema.run_membersAfter_closeObject]
    rfl
  rw [ofJson, read]

/-- **A request comes back** just if its bounds do. -/
theorem ofJson_toJson_eq_ok_iff (r : Request) :
    ofJson r.toJson = .ok r ↔ ReadsBack r.minX ∧ ReadsBack r.maxX := by
  rw [ofJson_toJson, Json.readsBack_iff, Json.readsBack_iff, reread]
  rcases Json.reread r.minX with problem | minX
  · simp [Except.mapError]
  rcases Json.reread r.maxX with problem | maxX
  · simp [Except.mapError]
  · rcases r with ⟨function, lo, hi, points⟩
    simp [Except.mapError]

/-- A bound that is not finite is written as the word for nothing, after its key. -/
theorem null_infix_toJson (r : Request) :
    (r.minX.isFinite = false → "\"minX\":null".toList <:+: r.toJson.toList) ∧
      (r.maxX.isFinite = false → "\"maxX\":null".toList <:+: r.toJson.toList) := by
  have null {v : Float} (h : v.isFinite = false) : Json.numberText v = "null".toList := by
    rw [Json.numberText, if_neg (by simp [h])]
  have minX : ",\"minX\":".toList ++ "null".toList = [','] ++ "\"minX\":null".toList := rfl
  have maxX : ",\"maxX\":".toList ++ "null".toList = [','] ++ "\"maxX\":null".toList := rfl
  refine ⟨fun h => ?_, fun h => ?_⟩
  · have text : r.toJson.toList = "\x7b\"function\":".toList ++ Json.stringText r.function ++
        (",\"minX\":".toList ++ Json.numberText r.minX) ++
        (",\"maxX\":".toList ++ Json.numberText r.maxX ++ ",\"points\":".toList ++
          integerText r.points ++ ['\x7d']) := by
      refine String.toList_ofList.trans ?_
      simp only [List.append_assoc]
    rw [text, null h, minX, ← List.append_assoc _ [',']]
    exact List.infix_append _ _ _
  · have text : r.toJson.toList = "\x7b\"function\":".toList ++ Json.stringText r.function ++
        ",\"minX\":".toList ++ Json.numberText r.minX ++
        (",\"maxX\":".toList ++ Json.numberText r.maxX) ++
        (",\"points\":".toList ++ integerText r.points ++ ['\x7d']) := by
      refine String.toList_ofList.trans ?_
      simp only [List.append_assoc]
    rw [text, null h, maxX, ← List.append_assoc _ [',']]
    exact List.infix_append _ _ _

/-- A bound that is not finite is a mismatch, as long as what is before it can be read. -/
theorem ofJson_toJson_of_not_isFinite {r : Request}
    (hmin : r.minX.isFinite = true → ReadsBack r.minX)
    (h : r.minX.isFinite = false ∨ r.maxX.isFinite = false) :
    ofJson r.toJson = .error (.json .mismatched) := by
  rw [ofJson_toJson, reread]
  by_cases finite : r.minX.isFinite = true
  · have hmax : r.maxX.isFinite = false := by simpa [finite] using h
    rw [Json.readsBack_iff.mp (hmin finite), Json.reread_of_not_isFinite hmax]
    rfl
  · rw [Json.reread_of_not_isFinite (Bool.eq_false_iff.mpr finite)]
    rfl

end Request

namespace Response

/-! ### Points -/

/-- The lexemes of a point. -/
def pointLexemes (p : Point) : List Lexeme :=
  [.openObject, .string "x", .colon, numberLexeme p.x,
    .comma, .string "y", .colon, numberLexeme p.y, .closeObject]

/-- A point of what is read of the coordinates of a point. -/
def rereadPoint (p : Point) : Except Json.Problem Point := do
  let x ← Json.reread p.x
  let y ← Json.reread p.y
  return ⟨x, y⟩

theorem spells_pointText (p : Point) (rest : List Char) :
    Lexeme.Spells (pointText p) (pointLexemes p) rest := by
  have x (rest : List Char) := Lexeme.Spells.key rest .openObject "x"
  have y (rest : List Char) := Lexeme.Spells.key rest .comma "y"
  exact (x _).append (.numberText p.x (Json.endsNumber_cons (by decide) _)) |>.append (y _)
    |>.append (.numberText p.y (Json.endsNumber_cons (by decide) _))
    |>.append (.punctuation .closeObject rest)

theorem run_pointLexemes (p : Point) (rest : List Lexeme) :
    pointSchema.decoder.run (pointLexemes p ++ rest) =
      rereadPoint p >>= fun q => .ok (q, rest) := by
  simp only [pointLexemes, List.cons_append, List.nil_append]
  rw [Json.Schema.run_decoder_openObject, rereadPoint, Json.Schema.run_members_field _ rfl rfl,
    Json.Field.run_read_of, Json.run_float_numberLexeme]
  rcases Json.reread p.x with problem | x
  · rfl
  rw [ok_bind, ok_bind, ok_bind, ok_bind, Json.Schema.run_membersAfter_field _ rfl rfl,
    Json.Field.run_read_of, Json.run_float_numberLexeme]
  rcases Json.reread p.y with problem | y
  · rfl
  rw [ok_bind, ok_bind, ok_bind, ok_bind, Json.Schema.run_membersAfter_closeObject]
  rfl

/-! ### Lists of points -/

/-- The lexemes of the points after the first one. -/
def moreLexemes (points : List Point) : List Lexeme :=
  points.flatMap fun p => .comma :: pointLexemes p

/-- The lexemes of a list of points. -/
def pointsLexemes : List Point → List Lexeme
  | [] => [.openArray, .closeArray]
  | p :: points => .openArray :: (pointLexemes p ++ moreLexemes points) ++ [.closeArray]

theorem spells_more (points : List Point) (rest : List Char) :
    Lexeme.Spells (points.flatMap fun p => ',' :: pointText p) (moreLexemes points) rest := by
  induction points with
  | nil => exact .nil rest
  | cons p points ih =>
    exact ((Lexeme.Spells.punctuation .comma _).append (spells_pointText p _)).append ih

theorem flatten_intersperse_cons {α : Type} (separator : α) (x : List α) (xs : List (List α)) :
    ((x :: xs).intersperse [separator]).flatten = x ++ xs.flatMap (separator :: ·) := by
  induction xs generalizing x with
  | nil => simp
  | cons y ys ih =>
    rw [List.intersperse_cons_cons, List.flatten_cons, List.flatten_cons, ih, List.flatMap_cons]
    rfl

theorem spells_pointsText (points : List Point) (rest : List Char) :
    Lexeme.Spells (pointsText points) (pointsLexemes points) rest := by
  rcases points with _ | ⟨p, points⟩
  · exact (Lexeme.Spells.punctuation .openArray _).append (.punctuation .closeArray rest)
  · rw [pointsText, List.map_cons, flatten_intersperse_cons, List.flatMap_map]
    have inside (rest : List Char) := (spells_pointText p _).append (spells_more points rest)
    exact (Lexeme.Spells.punctuation .openArray _).append (inside _) |>.append
      (.punctuation .closeArray rest)

theorem run_moreLexemes (points found : List Point) (rest : List Lexeme) :
    (Json.Decoder.itemsAfter pointSchema.decoder found).run
        (moreLexemes points ++ .closeArray :: rest) =
      points.mapM rereadPoint >>= fun qs => .ok (found.reverse ++ qs, rest) := by
  induction points generalizing found with
  | nil =>
    rw [moreLexemes, List.flatMap_nil, List.nil_append, Json.Decoder.run_itemsAfter_closeArray,
      List.mapM_nil]
    simp
  | cons p points ih =>
    rw [moreLexemes, List.flatMap_cons, List.append_assoc, List.cons_append,
      Json.Decoder.run_itemsAfter_comma, run_pointLexemes, List.mapM_cons]
    rcases rereadPoint p with problem | q
    · rfl
    rw [ok_bind, ok_bind, ok_bind]
    refine (ih (q :: found)).trans ?_
    rcases points.mapM rereadPoint with problem | qs
    · rfl
    · simp

/-- **What is read of a list of points** is what is read of each of them. -/
theorem run_pointsLexemes (points : List Point) (rest : List Lexeme) :
    (Json.Decoder.list pointSchema.decoder).run (pointsLexemes points ++ rest) =
      points.mapM rereadPoint >>= fun qs => .ok (qs, rest) := by
  rcases points with _ | ⟨p, points⟩
  · exact Json.Decoder.run_list_empty _ rest
  · have first : pointsLexemes (p :: points) ++ rest =
        .openArray :: (pointLexemes p ++ (moreLexemes points ++ .closeArray :: rest)) := by
      simp [pointsLexemes]
    rw [first]
    refine (Json.Decoder.run_list_cons _ (by decide) _).trans ?_
    refine (congrArg (· >>= _) (run_pointLexemes p _)).trans ?_
    rw [List.mapM_cons]
    rcases rereadPoint p with problem | q
    · rfl
    rw [ok_bind, ok_bind, ok_bind, run_moreLexemes]
    rcases points.mapM rereadPoint with problem | qs
    · rfl
    · rfl

/-! ### Responses -/

/-- The lexeme of an error field. -/
def errorLexeme : Option String → Lexeme
  | none => .null
  | some message => .string message

theorem spells_errorText (error : Option String) (rest : List Char) :
    Lexeme.Spells (errorText error) [errorLexeme error] rest := by
  cases error with
  | none => exact .null rest
  | some message => exact .stringText rest message

/-- The lexemes of a response. -/
def lexemes (r : Response) : List Lexeme :=
  [.openObject, .string "points", .colon] ++ pointsLexemes r.points ++
    [.comma, .string "success", .colon, .bool r.success,
      .comma, .string "error", .colon, errorLexeme r.error, .closeObject]

/-- **The text of a response** is made of its lexemes. -/
theorem scan_toJson (r : Response) : Lexeme.scan r.toJson = r.lexemes := by
  have points (rest : List Char) := Lexeme.Spells.key rest .openObject "points"
  have success (rest : List Char) := Lexeme.Spells.key rest .comma "success"
  have error (rest : List Char) := Lexeme.Spells.key rest .comma "error"
  have spelled := (points _).append (spells_pointsText r.points _) |>.append (success _)
    |>.append (.bool r.success _) |>.append (error _) |>.append (spells_errorText r.error _)
    |>.append (.punctuation .closeObject [])
  refine (Lexeme.Spells.scan spelled).trans ?_
  simp [lexemes]

/-- A response whose points are replaced by what is read of them. -/
def reread (r : Response) : Except Json.Problem Response := do
  let points ← r.points.mapM rereadPoint
  return { r with points }

/-- **What is read of a response** that was written is the response, but for what is read of its
points. -/
theorem ofJson_toJson (r : Response) : ofJson r.toJson = r.reread := by
  rw [ofJson, Json.Schema.decode_eq, scan_toJson, lexemes, reread, List.append_assoc]
  simp only [List.cons_append, List.nil_append]
  rw [Json.Schema.run_decoder_openObject, Json.Schema.run_members_field _ rfl rfl,
    Json.Field.run_read_of, run_pointsLexemes]
  rcases r.points.mapM rereadPoint with problem | points
  · rfl
  rw [ok_bind, ok_bind, ok_bind, ok_bind, Json.Schema.run_membersAfter_field _ rfl rfl,
    Json.Field.run_read_of, Json.Decoder.bool, Json.Decoder.run_scalar, ok_bind, ok_bind, ok_bind,
    Json.Schema.run_membersAfter_field _ rfl rfl, Json.Field.run_read_of, Json.Decoder.string?,
    Json.Decoder.run_scalar]
  rcases r with ⟨_, success, _ | message⟩
  · simp only [errorLexeme, ok_bind, Json.Schema.run_membersAfter_closeObject]
    rfl
  · simp only [errorLexeme, ok_bind, Json.Schema.run_membersAfter_closeObject]
    rfl

theorem mapM_rereadPoint_eq_ok_iff (points : List Point) :
    points.mapM rereadPoint = .ok points ↔ ∀ p ∈ points, ReadsBack p.x ∧ ReadsBack p.y := by
  have point (p : Point) : rereadPoint p = .ok p ↔ ReadsBack p.x ∧ ReadsBack p.y := by
    rw [rereadPoint, Json.readsBack_iff, Json.readsBack_iff]
    rcases Json.reread p.x with problem | x
    · simp
    rcases Json.reread p.y with problem | y
    · simp
    · rcases p with ⟨px, py⟩
      simp
  induction points with
  | nil => exact iff_of_true rfl (by simp)
  | cons p points ih =>
    have split : (∀ q ∈ p :: points, ReadsBack q.x ∧ ReadsBack q.y) ↔
        rereadPoint p = .ok p ∧ points.mapM rereadPoint = .ok points := by
      rw [List.forall_mem_cons]
      exact and_congr (point p).symm ih.symm
    rw [split, List.mapM_cons]
    rcases rereadPoint p with problem | q
    · simp
    rcases points.mapM rereadPoint with problem | qs
    · simp
    · simp

/-- **A response comes back** just if the coordinates of all of its points do. -/
theorem ofJson_toJson_eq_ok_iff (r : Response) :
    ofJson r.toJson = .ok r ↔ ∀ p ∈ r.points, ReadsBack p.x ∧ ReadsBack p.y := by
  rw [ofJson_toJson, ← mapM_rereadPoint_eq_ok_iff, reread]
  rcases r.points.mapM rereadPoint with problem | points
  · simp
  · rcases r with ⟨others, success, error⟩
    simp

theorem mapM_rereadPoint_of_not_isFinite {points : List Point}
    (assumed : ∀ p ∈ points, (p.x.isFinite = true → ReadsBack p.x) ∧
      (p.y.isFinite = true → ReadsBack p.y))
    (h : ∃ p ∈ points, p.x.isFinite = false ∨ p.y.isFinite = false) :
    points.mapM rereadPoint = .error .mismatched := by
  induction points with
  | nil => simp at h
  | cons p points ih =>
    obtain ⟨⟨hx, hy⟩, others⟩ := List.forall_mem_cons.mp assumed
    rw [List.mapM_cons, rereadPoint]
    by_cases fx : p.x.isFinite = true
    · rw [Json.readsBack_iff.mp (hx fx), ok_bind]
      by_cases fy : p.y.isFinite = true
      · -- the point reads back, so it is one of the others that does not
        have rest : ∃ q ∈ points, q.x.isFinite = false ∨ q.y.isFinite = false := by
          simpa [fx, fy] using h
        rw [Json.readsBack_iff.mp (hy fy), ih others rest]
        rfl
      · rw [Json.reread_of_not_isFinite (Bool.eq_false_iff.mpr fy)]
        rfl
    · rw [Json.reread_of_not_isFinite (Bool.eq_false_iff.mpr fx)]
      rfl

/-- A coordinate that is not finite is a mismatch, as long as what is before it can be read. -/
theorem ofJson_toJson_of_not_isFinite {r : Response}
    (assumed : ∀ p ∈ r.points, (p.x.isFinite = true → ReadsBack p.x) ∧
      (p.y.isFinite = true → ReadsBack p.y))
    (h : ∃ p ∈ r.points, p.x.isFinite = false ∨ p.y.isFinite = false) :
    ofJson r.toJson = .error .mismatched := by
  rw [ofJson_toJson, reread, mapM_rereadPoint_of_not_isFinite assumed h]
  rfl

end Response

/-- **The wire form loses nothing** that the texts of doubles do not lose. Assume of the finite
doubles in a request or a response that they read back.

A request with finite bounds is read as it was, whatever its function and its number of points are.
If a bound is not finite, the text has no number for it, and reading fails since it says something
else than what is wanted. A response is read as it was if the coordinates of its points are finite,
however many points there are and whether or not there is an error, and otherwise reading fails for
the same reason. -/
theorem wire_round_trips :
    (∀ r : Request, (r.minX.isFinite = true → ReadsBack r.minX) →
      (r.maxX.isFinite = true → ReadsBack r.maxX) →
      (r.minX.isFinite = true → r.maxX.isFinite = true → Request.ofJson r.toJson = .ok r) ∧
      (r.minX.isFinite = false → "\"minX\":null".toList <:+: r.toJson.toList) ∧
      (r.maxX.isFinite = false → "\"maxX\":null".toList <:+: r.toJson.toList) ∧
      (r.minX.isFinite = false ∨ r.maxX.isFinite = false →
        Request.ofJson r.toJson = .error (.json .mismatched))) ∧
    ∀ r : Response, (∀ p ∈ r.points, (p.x.isFinite = true → ReadsBack p.x) ∧
        (p.y.isFinite = true → ReadsBack p.y)) →
      ((∀ p ∈ r.points, p.x.isFinite = true ∧ p.y.isFinite = true) →
        Response.ofJson r.toJson = .ok r) ∧
      ((∃ p ∈ r.points, p.x.isFinite = false ∨ p.y.isFinite = false) →
        Response.ofJson r.toJson = .error .mismatched) := by
  refine ⟨fun r hmin hmax => ⟨fun fmin fmax => ?_, r.null_infix_toJson.1, r.null_infix_toJson.2,
    Request.ofJson_toJson_of_not_isFinite hmin⟩, fun r assumed => ⟨fun finite => ?_,
    Response.ofJson_toJson_of_not_isFinite assumed⟩⟩
  · exact r.ofJson_toJson_eq_ok_iff.mpr ⟨hmin fmin, hmax fmax⟩
  · exact r.ofJson_toJson_eq_ok_iff.mpr fun p hp =>
      ⟨(assumed p hp).1 (finite p hp).1, (assumed p hp).2 (finite p hp).2⟩

/-- A request with a quote, a control character and a negative zero, and a response with points. -/
theorem wire_round_trips_negative_zero :
    Request.ofJson (Request.toJson ⟨"\"\\\x01x", -0.0, 0.1, Int64.minValue⟩) =
        .ok ⟨"\"\\\x01x", -0.0, 0.1, Int64.minValue⟩ ∧
      Response.ofJson (Response.toJson ⟨[⟨-0.0, 0.1⟩, ⟨1e-7, 2.25⟩], true, none⟩) =
        .ok ⟨[⟨-0.0, 0.1⟩, ⟨1e-7, 2.25⟩], true, none⟩ := by
  have zero : ReadsBack (-0.0) := by decide +kernel
  have tenth : ReadsBack 0.1 := by decide +kernel
  have tiny : ReadsBack 1e-7 := by decide +kernel
  have quarters : ReadsBack 2.25 := by decide +kernel
  have request := wire_round_trips.1 ⟨"\"\\\x01x", -0.0, 0.1, Int64.minValue⟩ (fun _ => zero)
    fun _ => tenth
  have response := wire_round_trips.2 ⟨[⟨-0.0, 0.1⟩, ⟨1e-7, 2.25⟩], true, none⟩ <|
    List.forall_mem_cons.mpr ⟨⟨fun _ => zero, fun _ => tenth⟩,
      List.forall_mem_singleton.mpr ⟨fun _ => tiny, fun _ => quarters⟩⟩
  have finite : ∀ p ∈ [Point.mk (-0.0) 0.1, ⟨1e-7, 2.25⟩],
      p.x.isFinite = true ∧ p.y.isFinite = true := by decide +kernel
  exact ⟨request.1 (by decide +kernel) (by decide +kernel), response.1 finite⟩

end Graph

end CurvePlot
