import CurvePlot.Proofs.Expr.Grammar
import CurvePlot.Proofs.Failure

/-!
# The grammar as rules that call each other

The reader goes over the tokens once and keeps what is unfinished in frames. The grammar can also be
read by **recursive descent**, with a rule for each kind of phrase that calls the rules for the
phrases inside of it; what the reader has in frames is then in the calls that have not returned.

The rules share a cursor: the tokens ahead, how many rules are nested in each other, and how many
parentheses are open. Both numbers are counted up and down again, and arguments are taken out of a
list by their index, so a rule has steps with a domain: no number is counted down from zero, and an
argument that is taken out is there. A rule that leaves a domain gives nothing, and so does one that
runs out of open calls.

Of its cursor a rule also says where it has been: whenever it turns to the tokens ahead or to the
number of open parentheses, that is a **moment** of its run. Nothing that a rule does depends on the
moments; they are there so that something can be said of all of them.
-/

namespace CurvePlot

namespace Expr

open Token (Kind)

variable {α β : Type}

namespace Descent

/-! ### Rules -/

/-- What the rules share. -/
structure Cursor where
  ahead : List Token
  /-- How many rules that count are nested in each other. -/
  depth : Nat
  /-- How many parentheses are open. -/
  opened : Nat

/-- A **moment** of a run, with the cursor as it is then. -/
inductive Moment where
  /-- The tokens ahead are about to be looked at. -/
  | looking (c : Cursor)
  /-- A parenthesis was taken, and the number of open ones is about to be read or changed for it. -/
  | counting (c : Cursor)

/-- How a rule ends, and what it went through. -/
structure Ending (α : Type) where
  /-- A value or an error, and the cursor afterwards; nothing if a domain was left. -/
  result : Option (Except ParseError α × Cursor)
  /-- The moments of the run, the first one first. -/
  moments : List Moment

/-- A **rule** ends with a value or an error and moves the cursor, unless it leaves a domain. -/
def Rule (α : Type) : Type :=
  Cursor → Ending α

namespace Rule

protected def pure (a : α) : Rule α :=
  fun c => ⟨some (.ok a, c), []⟩

/-- Go on from a value. An error is passed on. -/
protected def bind (r : Rule α) (f : α → Rule β) : Rule β :=
  fun c =>
    match r c with
    | ⟨none, moments⟩ => ⟨none, moments⟩
    | ⟨some (.error cause, c'), moments⟩ => ⟨some (.error cause, c'), moments⟩
    | ⟨some (.ok a, c'), moments⟩ =>
      let next := f a c'
      { next with moments := moments ++ next.moments }

instance : Monad Rule where
  pure := Rule.pure
  bind := Rule.bind

/-- End as a computation does that leaves the cursor alone. -/
def ofExcept (r : Except ParseError α) : Rule α :=
  fun c => ⟨some (r, c), []⟩

def fail (cause : ParseError) : Rule α :=
  ofExcept (.error cause)

/-- Leave a domain. -/
def leave : Rule α :=
  fun _ => ⟨none, []⟩

end Rule

open Rule (fail leave ofExcept)

/-- Look at the next token. -/
def peek : Rule (Option Token) :=
  fun c => ⟨some (.ok c.ahead.head?, c), [.looking c]⟩

/-- Take the next token. -/
def advance : Rule (Option Token) :=
  fun c => ⟨some (.ok c.ahead.head?, { c with ahead := c.ahead.tail }), [.looking c]⟩

/-- How many parentheses are open. -/
def opened : Rule Nat :=
  fun c => ⟨some (.ok c.opened, c), [.counting c]⟩

def countOpening : Rule Unit :=
  fun c => ⟨some (.ok (), { c with opened := c.opened + 1 }), [.counting c]⟩

def countClosing : Rule Unit :=
  fun c =>
    ⟨(difference? c.opened 1).map fun n => (.ok (), { c with opened := n }), [.counting c]⟩

/-- Apply a rule one level deeper, unless that is too deep. The level is left again however the rule
ends. -/
def descend (limits : Limits) (rule : Rule α) : Rule α :=
  fun c =>
    if limits.nesting ≤ c.depth then
      fail (.tooDeep limits.nesting) c
    else
      let inner := rule { c with depth := c.depth + 1 }
      { inner with
        result := do
          let (result, c') ← inner.result
          let depth ← difference? c'.depth 1
          some (result, { c' with depth }) }

/-- Take the parenthesis that closes the one at a column. -/
def closeParen (column : Nat) : Rule Unit := do
  match ← advance with
  | some t => if t.kind = .rparen then countClosing else fail (unexpected t .closingParen)
  | none => fail (.unclosedParen column)

/-! ### Calls -/

/-- Take an argument out of a list. -/
def removeAt (arguments : List Expr) (i : Nat) : Rule (Expr × List Expr) :=
  fun c => ⟨arguments[i]?.map fun a => (.ok (a, arguments.eraseIdx i), c), []⟩

/-- The arguments after some that were read. -/
def moreArguments (sum : Rule Expr) : (rounds : Nat) → List Expr → Rule (List Expr)
  | 0, _ => leave
  | rounds + 1, arguments => do
    if (← peek).any (·.kind = .comma) then
      let _ ← advance
      let next ← sum
      moreArguments sum rounds (arguments ++ [next])
    else
      return arguments

/-- The arguments of a call, up to their closing parenthesis. -/
def argumentList (sum : Rule Expr) (rounds : Nat) : Rule (List Expr) := do
  if (← peek).any (·.kind = .rparen) then
    return []
  else
    let first ← sum
    moreArguments sum rounds [first]

/-- The arguments of a call, with their parentheses. -/
def arguments (sum : Rule Expr) (rounds : Nat) : Rule (List Expr) := do
  let opening ← advance
  countOpening
  let given ← argumentList sum rounds
  closeParen (opening.elim 0 Token.column)
  return given

/-- The call of a function with arguments. -/
def apply (f : Callable) (arguments : List Expr) : Rule Expr :=
  match f with
  | .unary g => do
    let (a, _) ← removeAt arguments 0
    return .unary (.call g) a
  | .binary g => do
    let (right, rest) ← removeAt arguments 1
    let (left, _) ← removeAt rest 0
    return .binary (.call g) left right

/-- A name, and a call if it is called. -/
def named (sum : Rule Expr) (rounds : Nat) (letters : String) (column : Nat) : Rule Expr := do
  match Builtin.ofName? letters with
  | none => fail (.unknownName letters column)
  | some (.callable f) =>
    if (← peek).any (·.kind = .lparen) then
      let given ← arguments sum rounds
      if given.length = f.arity then
        apply f given
      else
        fail (.argumentCount letters f.arity given.length)
    else
      fail (.missingCall letters column)
  | some .x =>
    if (← peek).any (·.kind = .lparen) then fail (.notCallable letters column) else return .var
  | some (.constant c) =>
    if (← peek).any (·.kind = .lparen) then fail (.notCallable letters column) else return .named c

/-! ### Phrases -/

/-- An operand. -/
def operand (sum : Rule Expr) (rounds : Nat) : Rule Expr := do
  match ← advance with
  | none => fail .unexpectedEnd
  | some t =>
    match t.kind with
    | .number value => return .const value
    | .lparen =>
      countOpening
      let inside ← sum
      closeParen t.column
      return inside
    | .name letters => named sum rounds letters t.column
    | .rparen =>
      if (← opened) = 0 then fail (.unmatchedParen t.column) else fail (unexpected t .operand)
    | _ => fail (unexpected t .operand)

/-- The rest of a chain of operators, after its left operand. -/
def chainRest (limits : Limits) (op? : Kind → Option BinaryOp) (next : Rule Expr) :
    (rounds : Nat) → Expr → Rule Expr
  | 0, _ => leave
  | rounds + 1, left => do
    match (← peek).bind fun t => op? t.kind with
    | none => return left
    | some op =>
      let _ ← advance
      let right ← next
      let joined ← ofExcept (chain limits op left right)
      chainRest limits op? next rounds joined

/-- A product, given the rule for powers. -/
def product (limits : Limits) (power : Rule Expr) (rounds : Nat) : Rule Expr := do
  let first ← power
  chainRest limits productOp? power rounds first

/-- A sum, given the rule for powers. -/
def sum (limits : Limits) (power : Rule Expr) (rounds : Nat) : Rule Expr := do
  let first ← product limits power rounds
  chainRest limits sumOp? (product limits power rounds) rounds first

mutual

/-- An operand with its signs, with at most `calls` calls open at a time. -/
def signed (limits : Limits) : (calls : Nat) → Rule Expr
  | 0 => leave
  | calls + 1 => do
    match (← peek).map Token.kind with
    | some .minus =>
      let _ ← advance
      descend limits do
        let inside ← signed limits calls
        return .unary .neg inside
    | some .plus =>
      let _ ← advance
      descend limits (signed limits calls)
    | _ => operand (sum limits (power limits calls) calls) calls

/-- A power, with at most `calls` calls open at a time. -/
def power (limits : Limits) : (calls : Nat) → Rule Expr
  | 0 => leave
  | calls + 1 =>
    descend limits do
      let base ← signed limits calls
      if (← peek).any (·.kind = .caret) then
        let _ ← advance
        let exponent ← power limits calls
        return .binary .pow base exponent
      else
        return base

end

/-- A whole formula, with at most `calls` calls open at a time. -/
def formula (limits : Limits) (calls : Nat) : Rule Expr := do
  let whole ← sum limits (power limits calls) calls
  match ← peek with
  | none => return whole
  | some t =>
    if t.kind = .rparen then
      fail (.unmatchedParen t.column)
    else
      fail (unexpected t .operatorOrEnd)

end Descent

/-- The formula that a list of tokens spells, by **recursive descent** with at most `calls` calls open
at a time. -/
def ofTokens? (limits : Limits) (calls : Nat) (tokens : List Token) :
    Option (Except ParseError Expr) :=
  (Descent.formula limits calls ⟨tokens, 0, 0⟩).result.map Prod.fst

end Expr

end CurvePlot
