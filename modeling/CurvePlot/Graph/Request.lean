import CurvePlot.Json.Record
import CurvePlot.Json.Text
import CurvePlot.Sampler.Run

/-!
# Graph requests

A request names a function, a range and a number of points. On the wire it is a JSON object
with the keys `function`, `minX`, `maxX` and `points`; what is left out has a default. A
request is **valid** if its function is not blank, its range has a finite width and it asks
for at least one point; only then it becomes a task for a sampler.
-/

namespace CurvePlot.Graph

/-- A request for a graph. -/
structure Request where
  function : String
  minX : Float
  maxX : Float
  points : Int64
deriving DecidableEq

/-- Why a request was refused. -/
inductive RequestError where
  /-- The function is blank. -/
  | missingFunction
  /-- The range or its width is not finite. -/
  | invalidRange (minX maxX : Float)
  /-- Fewer than one point is asked for. -/
  | invalidPointCount (points : Int64)
  /-- The body is not a request. -/
  | json (problem : Json.Problem)
  /-- The function is not a formula. -/
  | notAFormula (cause : ParseError)
deriving DecidableEq

/-- The wording of a request error. What is wrong with a body is for the reader of JSON to say: its
words would follow after `Malformed request`, and are left out. -/
def RequestError.message : RequestError → String
  | missingFunction => "Function is required"
  | invalidRange minX maxX => invalidRangeMessage minX maxX
  | invalidPointCount points => s!"Invalid point count: {points.toInt}, expected at least 1"
  | json _ => "Malformed request"
  | notAFormula cause => cause.message

namespace Request

/-- The request of which nothing was said. -/
def standard : Request where
  function := ""
  minX := -10.0
  maxX := 10.0
  points := 100

/-! ### The wire form -/

/-- What is known of a request while it is read. -/
structure Draft where
  function : Option String
  minX : Option Float
  maxX : Option Float
  points : Option Int64

/-- How a request is read: every field may be left out. -/
def schema : Json.Schema Draft Request where
  fields :=
    [.of "function" (fun d => d.function.isSome) .string fun v d => { d with function := some v },
      .of "minX" (fun d => d.minX.isSome) .float fun v d => { d with minX := some v },
      .of "maxX" (fun d => d.maxX.isSome) .float fun v d => { d with maxX := some v },
      .of "points" (fun d => d.points.isSome) .int64 fun v d => { d with points := some v }]
  start := ⟨none, none, none, none⟩
  mayBeShort := true
  finish d := some
    { function := d.function.getD standard.function
      minX := d.minX.getD standard.minX
      maxX := d.maxX.getD standard.maxX
      points := d.points.getD standard.points }

/-- The **request in a body**. -/
def ofJson (body : String) : Except RequestError Request :=
  (schema.decode body).mapError .json

/-- The characters of an integer. -/
def integerText (n : Int64) : List Char :=
  (toString n.toInt).toList

/-- The JSON text of a request. -/
def toJson (r : Request) : String :=
  String.ofList <|
    "\x7b\"function\":".toList ++ Json.stringText r.function ++
      ",\"minX\":".toList ++ Json.numberText r.minX ++
      ",\"maxX\":".toList ++ Json.numberText r.maxX ++
      ",\"points\":".toList ++ integerText r.points ++ ['\x7d']

/-! ### Validity -/

/-- What can be refused without compiling the function, the first fault first. -/
def validate (r : Request) : Except RequestError Unit :=
  if Text.isBlank r.function then
    .error .missingFunction
  else if !(r.minX.isFinite && r.maxX.isFinite && (r.maxX - r.minX).isFinite) then
    .error (.invalidRange r.minX r.maxX)
  else if r.points < 1 then
    .error (.invalidPointCount r.points)
  else
    .ok ()

/-- The **sampling task** of a valid request. -/
def task (r : Request) : Except RequestError Sampler.Task := do
  r.validate
  return ⟨r.function, r.minX, r.maxX, r.points.toUInt64⟩

end Request

end CurvePlot.Graph
