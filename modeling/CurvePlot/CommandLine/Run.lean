import CurvePlot.CommandLine.Options
import CurvePlot.FileTree
import CurvePlot.Graph.Service

/-!
# Running a command line

A run prints a table of points, or a JSON response, and says on the error output why there is
none. Its exit code is 0 for a success, 1 for a request that cannot be answered, and 2 for a
command line that is not understood or a request that cannot be read.
-/

namespace CurvePlot.CommandLine

/-- What a run prints and how it ends. -/
structure Outcome where
  exitCode : Nat
  /-- What goes to the standard output. -/
  stdout : String
  /-- The lines about errors. -/
  errors : List String := []
  /-- What is said of a command line that is not understood. -/
  usage : List String := []
deriving Repr, DecidableEq

/-- A line about an error. -/
def errorLine (message : String) : String :=
  "Error: " ++ message

/-- The line about a command line that is not understood. -/
def usageLine (cause : UsageError) : String :=
  "error: " ++ cause.message

/-- The line of a point in a table. -/
def row (p : Point) : List Char :=
  Number.text p.x ++ '\t' :: (Number.text p.y ++ ['\n'])

/-- The table of some points. -/
def table (points : List Point) : String :=
  String.ofList (points.flatMap row)

/-- The response as it is printed. -/
def printed (o : Options) (r : Graph.Response) : String :=
  if o.json then r.toJson ++ "\n" else table r.points

/-- The tree and the program of a curve. -/
def dumped (c : Curve) : String :=
  "Tree: " ++ c.tree.text ++ "\nProgram: " ++ c.program.text ++ "\n"

/-- The outcome of a request that is refused before it is sampled. -/
def refuse (o : Options) (cause : Graph.RequestError) : Outcome where
  exitCode := 1
  stdout := if o.json then (Graph.Response.failure cause.message).toJson ++ "\n" else ""
  errors := [errorLine cause.message]

/-- The outcome of a response. `before` was printed already. -/
def conclude (o : Options) (before : String) (r : Graph.Response) : Outcome where
  exitCode := if r.success then 0 else 1
  stdout := before ++ printed o r
  errors := if r.success then [] else r.error.toList.map errorLine

/-- The request of a command line that names a formula. -/
def requestOf (o : Options) : Graph.Request where
  function := o.expression.getD ""
  minX := o.minX
  maxX := o.maxX
  points := o.points

/-- Sample a task and print the result. -/
def perform (o : Options) (task : Sampler.Task) : Logged Outcome := do
  match ← Curve.compile task.expression with
  | .error cause => return refuse o (.notAFormula cause)
  | .ok c =>
    let s := Sampler.standard
    let result ←
      if o.parallel then
        s.sampleSplit c task.lo task.hi task.requested
      else
        s.sample c task.lo task.hi task.requested
    return conclude o (if o.dump then dumped c else "") (.ofResult result)

/-- Answer a request. -/
def answer (o : Options) (r : Graph.Request) : Logged Outcome :=
  match r.task with
  | .error cause => return refuse o cause
  | .ok task => perform o task

/-- **Carry out** what a command line asks for. `body` is the body of the request that it
names, or the reason why that cannot be read; it is looked at only if a request is named. -/
def execute (o : Options) (body : Except ReadError String) : Logged Outcome :=
  match o.request, body with
  | none, _ => answer o (requestOf o)
  | some _, .error cause =>
    return { exitCode := 2, stdout := "", errors := [errorLine cause.message] }
  | some _, .ok text =>
    match Graph.Request.ofJson text with
    | .error cause => return refuse o cause
    | .ok r => answer o r

/-- The name and the version of the program. -/
def versionText : String :=
  "graph-eval 0.1.0\n"

/-- Run a command line. `fetch` gives the body of a request by the name that the command line
gives for it. What `--help` prints is laid out by the reader of options and left out. -/
def run (arguments : List String) (fetch : String → Except ReadError String) :
    Logged Outcome :=
  match read arguments with
  | .error cause => return { exitCode := 2, stdout := "", usage := [usageLine cause] }
  | .ok .version => return { exitCode := 0, stdout := versionText }
  | .ok .help => return { exitCode := 0, stdout := "" }
  | .ok (.run o) => execute o (fetch (o.request.getD ""))

/-- The options of a command line, if it is understood and has something carried out. -/
def options? (arguments : List String) : Option Options :=
  match read arguments with
  | .ok (.run o) => some o
  | _ => none

end CurvePlot.CommandLine
