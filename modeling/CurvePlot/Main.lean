import CurvePlot.CommandLine.Run

/-!
# The program

Reads the arguments, the standard input if it is asked for, and request files; prints what
the run prints.
-/

open CurvePlot

/-- Why the system could not read a file. The numbers are those of the system, or their
negatives. -/
def readErrorOf : IO.Error → ReadError
  | .noFileOrDirectory .. => .notFound
  | .permissionDenied .. => .permissionDenied
  | .inappropriateType _ number _ =>
    if number = 21 ∨ -number = 21 then .isDirectory else .notDirectory
  | .invalidArgument .. => .nameTooLong
  | .userError _ => .notText
  | cause => .other (toString cause)

/-- The body of the request that a command line names. -/
def fetchBody (name : String) : IO (Except ReadError String) := do
  try
    if name = "-" then
      let input ← IO.getStdin
      return .ok (← input.readToEnd)
    else
      return .ok (← IO.FS.readFile name)
  catch cause =>
    return .error (readErrorOf cause)

/-- The program. The body that the command line names is read before the command line is run, which
asks for no other. -/
def main (arguments : List String) : IO UInt32 := do
  let options? := CommandLine.options? arguments
  let body ←
    match options?.bind (·.request) with
    | some name => fetchBody name
    | none => pure (.ok "")
  let done := CommandLine.run arguments fun _ => body
  let shown := (options?.map (·.verbosity)).getD .warn
  let errorOutput ← IO.getStderr
  for record in done.records do
    if shown.shows record.level then
      errorOutput.putStrLn s!"[{record.level.name}] {record.message}"
  IO.print done.value.stdout
  for line in done.value.usage ++ done.value.errors do
    errorOutput.putStrLn line
  return UInt32.ofNat done.value.exitCode
