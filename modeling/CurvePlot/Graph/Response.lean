import CurvePlot.Graph.Request

/-!
# Graph responses

A response holds the points of a graph or says why there are none. On the wire it is a JSON
object with the keys `points`, `success` and `error`, and its status is that of a web server:
200 for a success and 400 for a failure.
-/

namespace CurvePlot.Graph

/-- The answer to a request. -/
structure Response where
  points : List Point
  success : Bool
  error : Option String
deriving DecidableEq

namespace Response

/-- A response without points. -/
def failure (message : String) : Response :=
  ⟨[], false, some message⟩

/-- The response to the report of a sampling run: what is reported, field by field. -/
def ofReport (report : Sampler.Report) : Response where
  points := report.points
  success := report.succeeded
  error := report.error

/-- The response that a sampling run gives. -/
def ofResult (result : Sampler.Result) : Response :=
  ofReport (.ofResult result)

/-- The status of a response. -/
def status (r : Response) : Nat :=
  if r.success then 200 else 400

/-! ### The wire form -/

/-- The JSON text of a point. -/
def pointText (p : Point) : List Char :=
  "\x7b\"x\":".toList ++ Json.numberText p.x ++ ",\"y\":".toList ++ Json.numberText p.y ++
    ['\x7d']

/-- The JSON text of a list of points. -/
def pointsText (points : List Point) : List Char :=
  '[' :: ((points.map pointText).intersperse [',']).flatten ++ [']']

/-- The JSON text of an error field. -/
def errorText : Option String → List Char
  | none => "null".toList
  | some message => Json.stringText message

/-- The JSON text of a response. -/
def toJson (r : Response) : String :=
  String.ofList <|
    "\x7b\"points\":".toList ++ pointsText r.points ++
      ",\"success\":".toList ++ (if r.success then "true" else "false").toList ++
      ",\"error\":".toList ++ errorText r.error ++ ['\x7d']

/-- What is known of a point while it is read. -/
structure PointDraft where
  x : Option Float
  y : Option Float

/-- How a point is read: both coordinates are wanted. -/
def pointSchema : Json.Schema PointDraft Point where
  fields :=
    [.of "x" (fun d => d.x.isSome) .float fun v d => { d with x := some v },
      .of "y" (fun d => d.y.isSome) .float fun v d => { d with y := some v }]
  start := ⟨none, none⟩
  mayBeShort := false
  finish d := do
    let x ← d.x
    let y ← d.y
    return ⟨x, y⟩

/-- What is known of a response while it is read. -/
structure Draft where
  points : Option (List Point)
  success : Option Bool
  error : Option (Option String)

/-- How a response is read: only the error may be left out, and only of an object. -/
def schema : Json.Schema Draft Response where
  fields :=
    [.of "points" (fun d => d.points.isSome) (.list pointSchema.decoder)
        fun v d => { d with points := some v },
      .of "success" (fun d => d.success.isSome) .bool fun v d => { d with success := some v },
      .of "error" (fun d => d.error.isSome) .string? fun v d => { d with error := some v }]
  start := ⟨none, none, none⟩
  mayBeShort := false
  finish d := do
    let points ← d.points
    let success ← d.success
    return ⟨points, success, d.error.getD none⟩

/-- The **response in a body**. -/
def ofJson (body : String) : Except Json.Problem Response :=
  schema.decode body

end Response

end CurvePlot.Graph
