import CurvePlot.Expr.Basic
import CurvePlot.Token.Scanner

/-!
# Reading a formula

From the loosest to the tightest binding, a formula is made of

* sums `a + b`, `a - b`, from left to right,
* products `a * b`, `a / b`, from left to right,
* powers `a ^ b`, from right to left,
* signs `-a`, `+a`, which belong to the base of a power, so `-x^2` is `(-x)^2`,
* numbers, the variable, constants, calls and formulas in parentheses.

The reader takes one token at a time. What is unfinished is kept as a list of **frames**,
innermost first, and the `State` says what may come next. A token that binds less tightly
than the innermost frames closes them; a token that can follow nothing is an error at that
token. Since a state depends only on the tokens already read, so does the first error.

Two **limits** keep trees shallow. Every sign, every exponent and every parenthesis is a
level of nesting, and there may be only so many levels around an operand. A sum or a product
may not become deeper than its own limit, however it is nested, since long chains grow
deep without any nesting.
-/

namespace CurvePlot

namespace Expr

/-- How deep a formula may go. -/
structure Limits where
  /-- The most levels that an operand may stand at; an operand outside of everything stands
  at level one. -/
  nesting : Nat
  /-- The greatest depth of a sum, a difference, a product or a quotient. -/
  depth : Nat
deriving Repr, DecidableEq

/-- The limits that formulas are read with. -/
def Limits.standard : Limits where
  nesting := 256
  depth := 1024

/-- Something that waits for an operand. -/
inductive Frame where
  /-- A sign, and whether it is a minus. -/
  | sign (negates : Bool)
  /-- A base that waits for its exponent. -/
  | power (base : Expr)
  /-- A left operand of `*` or `/`. -/
  | product (op : BinaryOp) (left : Expr)
  /-- A left operand of `+` or `-`. -/
  | sum (op : BinaryOp) (left : Expr)
  /-- An opening parenthesis, by its column. -/
  | group (column : Nat)
  /-- A call, the column of its parenthesis and the arguments before the current one. -/
  | call (f : Callable) (column : Nat) (arguments : List Expr)
deriving DecidableEq

namespace Frame

/-- Whether what stands inside of a frame is one level deeper than the frame. -/
def nests : Frame → Bool
  | sign _ => true
  | power _ => true
  | product _ _ => false
  | sum _ _ => false
  | group _ => true
  | call _ _ _ => true

/-- Whether a frame is an opening parenthesis. -/
def isOpen : Frame → Bool
  | group _ => true
  | call _ _ _ => true
  | _ => false

end Frame

/-- The level of an operand inside of some frames. -/
def level (frames : List Frame) : Nat :=
  1 + frames.countP Frame.nests

/-- What has been read so far, by what may come next. -/
inductive State where
  /-- An operand must come. -/
  | operand (frames : List Frame)
  /-- The name of a function was read, at `column`; a parenthesis must come. -/
  | callee (frames : List Frame) (f : Callable) (column : Nat)
  /-- The parenthesis of a call was read, at `column`; an argument or the end of the call
  must come. -/
  | arguments (frames : List Frame) (f : Callable) (column : Nat)
  /-- An operand was read; an operator or the end of something may come. If the operand is
  a bare name, `bare` is that name and its column. -/
  | complete (frames : List Frame) (e : Expr) (bare : Option (String × Nat))
deriving DecidableEq

/-- The state before the first token. -/
def State.start : State :=
  .operand []

/-! ### Going one level deeper -/

/-- Put a frame around what follows, unless that would be too deep. -/
def nest (limits : Limits) (frame : Frame) (frames : List Frame) :
    Except ParseError (List Frame) :=
  if level (frame :: frames) ≤ limits.nesting then
    .ok (frame :: frames)
  else
    .error (.tooDeep limits.nesting)

/-! ### Closing frames -/

/-- Apply the signs in front of an operand. -/
def applySigns : List Frame → Expr → List Frame × Expr
  | .sign true :: frames, e => applySigns frames (.unary .neg e)
  | .sign false :: frames, e => applySigns frames e
  | frames, e => (frames, e)

/-- The state after an operand. -/
def finishOperand (frames : List Frame) (e : Expr) (bare : Option (String × Nat)) : State :=
  let (outer, signed) := applySigns frames e
  .complete outer signed bare

/-- Raise the waiting bases to their exponents, the innermost first. -/
def closePowers : List Frame → Expr → List Frame × Expr
  | .power base :: frames, e => closePowers frames (.binary .pow base e)
  | frames, e => (frames, e)

/-- Join two operands of a chain, unless the result would be too deep. -/
def chain (limits : Limits) (op : BinaryOp) (left right : Expr) : Except ParseError Expr :=
  if (binary op left right).depth ≤ limits.depth then
    .ok (.binary op left right)
  else
    .error (.tooDeep limits.depth)

/-- Close powers, and then the product that the result is the right operand of. -/
def closeProduct (limits : Limits) (frames : List Frame) (e : Expr) :
    Except ParseError (List Frame × Expr) :=
  match closePowers frames e with
  | (.product op left :: outer, right) => do
    let joined ← chain limits op left right
    return (outer, joined)
  | closed => .ok closed

/-- Close powers and products, and then the sum that the result is the right operand of. -/
def closeSum (limits : Limits) (frames : List Frame) (e : Expr) :
    Except ParseError (List Frame × Expr) := do
  match ← closeProduct limits frames e with
  | (.sum op left :: outer, right) =>
    let joined ← chain limits op left right
    return (outer, joined)
  | closed => return closed

/-- The state after the closing parenthesis of a call. -/
def finishCall (frames : List Frame) (f : Callable) (arguments : List Expr) :
    Except ParseError State :=
  match f, arguments with
  | .unary g, [a] => .ok (finishOperand frames (.unary (.call g) a) none)
  | .binary g, [a, b] => .ok (finishOperand frames (.binary (.call g) a b) none)
  | f, arguments => .error (.argumentCount f.name f.arity arguments.length)

/-! ### One token -/

/-- The error of a token that cannot stand where it does. -/
def unexpected (t : Token) (expected : ParseError.Expectation) : ParseError :=
  .unexpectedToken t.kind t.column expected

/-- Read a token where an operand must come. -/
def readOperand (limits : Limits) (frames : List Frame) (t : Token) : Except ParseError State :=
  match t.kind with
  | .number value => .ok (finishOperand frames (.const value) none)
  | .minus => State.operand <$> nest limits (.sign true) frames
  | .plus => State.operand <$> nest limits (.sign false) frames
  | .lparen => State.operand <$> nest limits (.group t.column) frames
  | .name letters =>
    match Builtin.ofName? letters with
    | none => .error (.unknownName letters t.column)
    | some .x => .ok (finishOperand frames .var (some (letters, t.column)))
    | some (.constant c) => .ok (finishOperand frames (.named c) (some (letters, t.column)))
    | some (.callable f) => .ok (.callee frames f t.column)
  | .rparen =>
    if frames.any Frame.isOpen then
      .error (unexpected t .operand)
    else
      .error (.unmatchedParen t.column)
  | _ => .error (unexpected t .operand)

/-- Read a token that is no operator after a formula that is as long as it can be: it has to
end what the formula stands in. -/
def readCloser (frames : List Frame) (e : Expr) (t : Token) : Except ParseError State :=
  match frames, t.kind with
  | .group _ :: outer, .rparen => .ok (finishOperand outer e none)
  | .call f _ arguments :: outer, .rparen => finishCall outer f (arguments ++ [e])
  | .call f column arguments :: outer, .comma =>
    .ok (.operand (.call f column (arguments ++ [e]) :: outer))
  | [], .rparen => .error (.unmatchedParen t.column)
  | [], _ => .error (unexpected t .operatorOrEnd)
  | _, _ => .error (unexpected t .closingParen)

/-- Read a token after an operand. -/
def readOperator (limits : Limits) (frames : List Frame) (e : Expr) (t : Token) :
    Except ParseError State :=
  match t.kind with
  | .caret => State.operand <$> nest limits (.power e) frames
  | .star => do
    let (outer, left) ← closeProduct limits frames e
    return .operand (.product .mul left :: outer)
  | .slash => do
    let (outer, left) ← closeProduct limits frames e
    return .operand (.product .div left :: outer)
  | .plus => do
    let (outer, left) ← closeSum limits frames e
    return .operand (.sum .add left :: outer)
  | .minus => do
    let (outer, left) ← closeSum limits frames e
    return .operand (.sum .sub left :: outer)
  | _ => do
    let (outer, closed) ← closeSum limits frames e
    readCloser outer closed t

/-- Read one token. -/
def State.step (limits : Limits) (s : State) (t : Token) : Except ParseError State :=
  match s with
  | .operand frames => readOperand limits frames t
  | .callee frames f column =>
    if t.kind = .lparen then
      .ok (.arguments frames f t.column)
    else
      .error (.missingCall f.name column)
  | .arguments frames f column =>
    if t.kind = .rparen then
      finishCall frames f []
    else do
      let inner ← nest limits (.call f column []) frames
      readOperand limits inner t
  | .complete frames e bare =>
    match bare, t.kind with
    | some (name, column), .lparen => .error (.notCallable name column)
    | _, _ => readOperator limits frames e t

/-! ### All tokens -/

/-- The formula, once there are no more tokens. -/
def State.finish (limits : Limits) : State → Except ParseError Expr
  | .operand _ => .error .unexpectedEnd
  | .callee _ f column => .error (.missingCall f.name column)
  | .arguments frames f column => do
    let _ ← nest limits (.call f column []) frames
    .error .unexpectedEnd
  | .complete frames e _ => do
    match ← closeSum limits frames e with
    | ([], whole) => return whole
    | (.group column :: _, _) => .error (.unclosedParen column)
    | (.call _ column _ :: _, _) => .error (.unclosedParen column)
    | _ => .error .unexpectedEnd

/-- Read tokens one after the other. -/
def State.run (limits : Limits) (s : State) (tokens : List Token) : Except ParseError State :=
  tokens.foldlM (State.step limits) s

/-- The formula that a list of tokens spells, within given limits. -/
def ofTokensWithin (limits : Limits) (tokens : List Token) : Except ParseError Expr := do
  let last ← State.start.run limits tokens
  last.finish limits

/-- The formula that a list of tokens spells. -/
def ofTokens (tokens : List Token) : Except ParseError Expr :=
  ofTokensWithin .standard tokens

/-- The **formula that a text spells**, or the first thing that is wrong with it. A text
without any token is refused as empty. -/
def parse (source : String) : Except ParseError Expr := do
  let tokens ← Token.scan source
  if tokens.isEmpty then
    .error .empty
  else
    ofTokens tokens

end Expr

end CurvePlot
