import CurvePlot.Sampler.Run

/-!
# Sessions

A session keeps compiled curves under names, a sampler, and a scratch stack that evaluations
share. Curves never change; a name can be given to another curve.
-/

namespace CurvePlot

/-- The state of a session. -/
structure Session where
  /-- The curves by name, each name once. -/
  curves : List (String × Curve)
  sampler : Sampler
  scratch : List Float

namespace Session

/-- A session with nothing in it. -/
def empty : Session :=
  ⟨[], .standard, []⟩

/-- The curve of a name. -/
def curve? (s : Session) (name : String) : Option Curve :=
  s.curves.lookup name

/-- Give a name to a curve. -/
def define (s : Session) (name : String) (c : Curve) : Session :=
  { s with curves := (name, c) :: s.curves.filter fun entry => entry.1 != name }

/-- Forget a name. -/
def forget (s : Session) (name : String) : Session :=
  { s with curves := s.curves.filter fun entry => entry.1 != name }

/-- All names, in the order of their characters. -/
def names (s : Session) : List String :=
  (s.curves.map Prod.fst).mergeSort fun a b => decide (a ≤ b)

/-- Compile a text under a name. A name keeps its curve if the text is no formula. -/
def compile (s : Session) (name source : String) :
    Logged (Except ParseError Curve × Session) := do
  match ← Curve.compile source with
  | .error cause => return (.error cause, s)
  | .ok c => return (.ok c, s.define name c)

/-- The value of a curve at `x`, computed on the scratch stack of the session. -/
def eval (s : Session) (c : Curve) (x : Float) : Float × Session :=
  let (value, scratch) := c.evalOn x s.scratch
  (value, { s with scratch })

end Session

end CurvePlot
