import CurvePlot.Decimal.Literal
import CurvePlot.Log

/-!
# Command line arguments

A command line names a formula or a request, and options for either. Arguments are read from
left to right. An option that takes a value finds it after an equals sign or in the next
argument; the next argument must not look like an option, except that the numeric options
accept a negative number there. After `--` there are no more options. No option may be given
twice.
-/

namespace CurvePlot.CommandLine

/-- Which records are shown: those of a level and of all that matter more. -/
inductive Verbosity where
  | error
  | warn
  | info
  | debug
deriving Repr, DecidableEq

namespace Verbosity

/-- The verbosity of a given name. -/
def ofName? : String → Option Verbosity
  | "error" => some error
  | "warn" => some warn
  | "info" => some info
  | "debug" => some debug
  | _ => none

/-- Whether records of a level are shown. -/
def shows : Verbosity → Log.Level → Bool
  | error, _ => false
  | warn, level => level = .warn
  | info, level => level = .warn || level = .info
  | debug, _ => true

end Verbosity

/-- What a command line asks for. -/
structure Options where
  /-- The formula. -/
  expression : Option String
  minX : Float
  maxX : Float
  points : Int64
  /-- Where to read a request from: a file, or `-` for the standard input. -/
  request : Option String
  /-- Whether to print a JSON response instead of a table. -/
  json : Bool
  /-- Whether to sample in chunks. -/
  parallel : Bool
  /-- Whether to print the tree and the program first. -/
  dump : Bool
  verbosity : Verbosity

/-- What a command line turns out to be. -/
inductive Invocation where
  /-- Print the name and the version. -/
  | version
  /-- Print how the program is used. -/
  | help
  | run (options : Options)

/-- Why a command line was refused. -/
inductive UsageError where
  | unknownOption (argument : String)
  | missingValue (option : String)
  | unwantedValue (option : String)
  | invalidValue (option value : String)
  | repeated (option : String)
  | secondExpression (argument : String)
  | missingExpression
  /-- Both a formula and a request are named. -/
  | conflict
deriving Repr, DecidableEq

/-- The wording of a usage error, in short: how the program is used is not said. -/
def UsageError.message : UsageError → String
  | unknownOption argument => s!"unexpected argument '{argument}'"
  | missingValue option => s!"a value is required for '{option}'"
  | unwantedValue option => s!"no value is allowed for '{option}'"
  | invalidValue option value => s!"invalid value '{value}' for '{option}'"
  | repeated option => s!"'{option}' cannot be used twice"
  | secondExpression argument => s!"unexpected argument '{argument}'"
  | missingExpression => "an expression or a request is required"
  | conflict => "an expression cannot be used with a request"

/-! ### Options -/

/-- An option without a value. -/
inductive Flag where
  | json
  | parallel
  | dump
deriving Repr, DecidableEq

/-- An option with a value. -/
inductive Setting where
  | minX
  | maxX
  | points
  | request
  | logLevel
deriving Repr, DecidableEq

/-- An option. -/
inductive Switch where
  | flag (f : Flag)
  | setting (s : Setting)
  | version
  | help
deriving Repr, DecidableEq

/-- The option that is written with two dashes and a name. -/
def Switch.ofName? : String → Option Switch
  | "json" => some (flag .json)
  | "parallel" => some (flag .parallel)
  | "dump" => some (flag .dump)
  | "min-x" => some (setting .minX)
  | "max-x" => some (setting .maxX)
  | "points" => some (setting .points)
  | "request" => some (setting .request)
  | "log-level" => some (setting .logLevel)
  | "version" => some version
  | "help" => some help
  | _ => none

/-- Whether the value of an option is a number, so that it may begin with a dash. -/
def Setting.isNumeric : Setting → Bool
  | minX | maxX | points => true
  | request | logLevel => false

/-! ### Values -/

/-- Whether a text looks like a number without sign: digits, perhaps a point after the first
one, perhaps an `e` or `E` with something behind it. -/
def looksNumeric (seenPoint : Bool) (seenMark : Bool) (first : Bool) : List Char → Bool
  | [] => true
  | c :: rest =>
    if c.isDigit then
      looksNumeric seenPoint seenMark false rest
    else if c = '.' && !seenPoint && !seenMark && !first then
      looksNumeric true seenMark false rest
    else if (c = 'e' || c = 'E') && !seenMark && !first && !rest.isEmpty then
      looksNumeric seenPoint true false rest
    else
      false

/-- Whether an argument can be the value of an option that stands before it. -/
def canBeValue (s : Setting) (argument : String) : Bool :=
  match argument.toList with
  | '-' :: rest => rest.isEmpty || (s.isNumeric && looksNumeric false false true rest)
  | _ => true

/-- The 64-bit integer that a text spells, with an optional sign in front. -/
def int64? (cs : List Char) : Option Int64 :=
  let n? : Option Int :=
    match cs with
    | '-' :: digits => (Decimal.wholeDigits? digits).map fun n => -(n : Int)
    | '+' :: digits => (Decimal.wholeDigits? digits).map fun n => (n : Int)
    | digits => (Decimal.wholeDigits? digits).map fun n => (n : Int)
  n?.bind fun n =>
    if Int64.minValue.toInt ≤ n ∧ n ≤ Int64.maxValue.toInt then some (Int64.ofInt n) else none

/-! ### Arguments -/

/-- What was found on a command line so far. -/
structure Draft where
  expression : Option String
  minX : Option Float
  maxX : Option Float
  points : Option Int64
  request : Option String
  json : Bool
  parallel : Bool
  dump : Bool
  verbosity : Option Verbosity

namespace Draft

/-- Before the first argument. -/
def start : Draft :=
  ⟨none, none, none, none, none, false, false, false, none⟩

/-- Put a value where there must be none yet. -/
def once {α : Type} (name : String) (old : Option α) (new : Option α) (value : String) :
    Except UsageError (Option α) :=
  match old, new with
  | _, none => .error (.invalidValue name value)
  | some _, some _ => .error (.repeated name)
  | none, some a => .ok (some a)

/-- Set an option that takes a value. -/
def set (d : Draft) (s : Setting) (name value : String) : Except UsageError Draft := do
  match s with
  | .minX => return { d with minX := ← once name d.minX (Number.ofText? value.toList) value }
  | .maxX => return { d with maxX := ← once name d.maxX (Number.ofText? value.toList) value }
  | .points => return { d with points := ← once name d.points (int64? value.toList) value }
  | .request => return { d with request := ← once name d.request (some value) value }
  | .logLevel =>
    return { d with verbosity := ← once name d.verbosity (Verbosity.ofName? value) value }

/-- Set a flag. -/
def raise (d : Draft) (f : Flag) (name : String) : Except UsageError Draft :=
  match f with
  | .json => if d.json then .error (.repeated name) else .ok { d with json := true }
  | .parallel =>
    if d.parallel then .error (.repeated name) else .ok { d with parallel := true }
  | .dump => if d.dump then .error (.repeated name) else .ok { d with dump := true }

/-- Take an argument as the formula. -/
def express (d : Draft) (argument : String) : Except UsageError Draft :=
  match d.expression with
  | some _ => .error (.secondExpression argument)
  | none => .ok { d with expression := some argument }

/-- The options of a whole command line. -/
def finish (d : Draft) : Except UsageError Options :=
  match d.expression, d.request with
  | none, none => .error .missingExpression
  | some _, some _ => .error .conflict
  | _, _ => .ok
    { expression := d.expression
      minX := d.minX.getD (-10.0)
      maxX := d.maxX.getD 10.0
      points := d.points.getD 100
      request := d.request
      json := d.json
      parallel := d.parallel
      dump := d.dump
      verbosity := d.verbosity.getD .warn }

end Draft

/-- Read formulas only. -/
def readRest (d : Draft) : List String → Except UsageError Invocation
  | [] => Invocation.run <$> d.finish
  | argument :: rest => do
    let next ← d.express argument
    readRest next rest

/-- What an argument is, by its first characters. -/
inductive Shape where
  /-- Two dashes and nothing else. -/
  | separator
  /-- Two dashes, the name of an option, and what stands behind an equals sign. -/
  | long (name : String) (value : Option String)
  /-- A dash and more. -/
  | short (letters : List Char)
  | plain

/-- The shape of an argument. -/
def shapeOf (argument : String) : Shape :=
  match argument.toList with
  | '-' :: '-' :: [] => .separator
  | '-' :: '-' :: body =>
    .long (String.ofList (body.takeWhile (· ≠ '=')))
      (match body.dropWhile (· ≠ '=') with
        | _ :: value => some (String.ofList value)
        | [] => none)
  | '-' :: c :: rest => .short (c :: rest)
  | _ => .plain

/-- Read arguments. -/
def readArguments (d : Draft) : List String → Except UsageError Invocation
  | [] => Invocation.run <$> d.finish
  | argument :: rest =>
    match shapeOf argument with
    | .separator => readRest d rest
    | .plain => do
      let next ← d.express argument
      readArguments next rest
    | .short ('V' :: _) => .ok .version
    | .short ('h' :: _) => .ok .help
    | .short _ => .error (.unknownOption argument)
    | .long name attached =>
      match Switch.ofName? name, attached with
      | none, _ => .error (.unknownOption argument)
      | some .version, none => .ok .version
      | some .help, none => .ok .help
      | some (.flag f), none => do
        let next ← d.raise f name
        readArguments next rest
      | some (.setting s), some value => do
        let next ← d.set s name value
        readArguments next rest
      | some (.setting s), none =>
        match rest with
        | [] => .error (.missingValue name)
        | value :: after =>
          if canBeValue s value then do
            let next ← d.set s name value
            readArguments next after
          else
            .error (.missingValue name)
      | some _, some _ => .error (.unwantedValue name)

/-- **Read a command line.** -/
def read (arguments : List String) : Except UsageError Invocation :=
  readArguments .start arguments

end CurvePlot.CommandLine
