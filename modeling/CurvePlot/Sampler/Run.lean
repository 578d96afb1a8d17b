import CurvePlot.Sampler.Basic

/-!
# Sampling a curve

A run evaluates a curve at every position of a grid, in order, and keeps the points whose
value is finite; that none is kept is no failure. Three ways of running agree on what they
keep:

* `Sampler.sample` goes through the grid on one scratch stack;
* `Sampler.sampleChunks` cuts the grid into chunks, each with a scratch stack of its own, as
  workers would share it (`Sampler.sampleSplit` makes the chunks equally large);
* `Sampler.sampleUntil` asks before every sample whether it is to stop, and fails if so.
-/

namespace CurvePlot

namespace Grid

/-- The points of `count` positions from the `i`-th on, after the points `kept` already,
which are given latest first. -/
def collect (g : Grid) (c : Curve) : Nat → Nat → List Float → List Point → List Point
  | 0, _, _, kept => kept.reverse
  | count + 1, i, scratch, kept =>
    match g.sample c i scratch with
    | (some p, after) => g.collect c count (i + 1) after (p :: kept)
    | (none, after) => g.collect c count (i + 1) after kept

/-- Consecutive positions that are evaluated on one scratch stack. -/
structure Chunk where
  /-- The index of the first position. -/
  first : Nat
  /-- How many positions there are. -/
  count : Nat
  /-- What the scratch stack holds at first. -/
  scratch : List Float

/-- The samples at `count` positions from the `i`-th on, those without a finite value among
them as `none`. -/
def sampleEach (g : Grid) (c : Curve) : Nat → Nat → List Float → List (Option Point)
  | 0, _, _ => []
  | count + 1, i, scratch =>
    let (sampled, after) := g.sample c i scratch
    sampled :: g.sampleEach c count (i + 1) after

/-- The points of some chunks. The samples of all chunks are put together, one chunk after the
other, before any is left out. -/
def collectChunks (g : Grid) (c : Curve) (chunks : List Chunk) : List Point :=
  let samples := chunks.flatMap fun chunk => g.sampleEach c chunk.count chunk.first chunk.scratch
  samples.filterMap id

/-- Chunks of at most `size` positions each that cover `count` positions from the `i`-th on. -/
def chunksOf (size : Nat) (count i : Nat) : List Chunk :=
  if size = 0 ∨ count ≤ size then
    [⟨i, count, []⟩]
  else
    ⟨i, size, []⟩ :: chunksOf size (count - size) (i + size)
termination_by count

/-- The points of `count` positions from the `i`-th on, unless `stop` says at some index that
the run is to end there; the result is that index then. -/
def collectUntil (g : Grid) (c : Curve) (stop : Nat → Bool) :
    Nat → Nat → List Float → List Point → Except Nat (List Point)
  | 0, _, _, kept => .ok kept.reverse
  | count + 1, i, scratch, kept =>
    if stop i then
      .error i
    else
      match g.sample c i scratch with
      | (some p, after) => g.collectUntil c stop count (i + 1) after (p :: kept)
      | (none, after) => g.collectUntil c stop count (i + 1) after kept

/-- How many samples a run counts: one more than there are intervals, as far as counts go. -/
def evaluated (g : Grid) : Nat :=
  min g.size Binary64.maxCount.toNat

end Grid

namespace Sampler

/-- The points of a curve, or why there are none. -/
abbrev Result := Except SamplingError (List Point)

/-- What is **reported** of a run: its points, whether it succeeded, and if not, why. -/
structure Report where
  points : List Point
  succeeded : Bool
  error : Option String
deriving DecidableEq

namespace Report

/-- The report of a run with points, or with none that are finite. -/
def success (points : List Point) : Report :=
  ⟨points, true, none⟩

/-- The report of a run that failed. What it had sampled is not reported. -/
def failure (message : String) : Report :=
  ⟨[], false, some message⟩

/-- The report of a result. -/
def ofResult : Result → Report
  | .ok points => success points
  | .error cause => failure cause.message

end Report

/-- Give a range its grid, leaving a record if the cap cut it short. -/
def prepare (s : Sampler) (lo hi : Float) (requested : UInt64) : Logged (Option Grid) :=
  match s.grid? lo hi requested with
  | none => return none
  | some g => do
    if s.isClamped g.intervals requested then
      Logged.note .warn <|
        s!"sampling [{String.ofList (Number.text lo)}, {String.ofList (Number.text hi)}] " ++
          s!"clamped to {g.intervals} points (requested {requested})"
    return some g

/-- End a run that went through its grid. -/
def finish (g : Grid) (points : List Point) : Logged Result := do
  let kept := points.length
  Logged.note .debug <|
    s!"evaluated {g.evaluated} samples, kept {kept}, " ++
      s!"dropped {g.evaluated - kept} non-finite"
  return .ok points

/-- **Sample** a curve. -/
def sample (s : Sampler) (c : Curve) (lo hi : Float) (requested : UInt64) : Logged Result := do
  match ← s.prepare lo hi requested with
  | none => return .error (.invalidRange lo hi)
  | some g => finish g (g.collect c g.size 0 [] [])

/-- Sample a curve **in chunks**: `split` says how a number of positions is shared out. -/
def sampleChunks (s : Sampler) (split : Nat → List Grid.Chunk) (c : Curve) (lo hi : Float)
    (requested : UInt64) : Logged Result := do
  match ← s.prepare lo hi requested with
  | none => return .error (.invalidRange lo hi)
  | some g => finish g (g.collectChunks c (split g.size))

/-- The size of the chunks that a grid is shared out in. -/
def chunkSize : Nat := 256

/-- Sample a curve in chunks of that size. -/
def sampleSplit (s : Sampler) (c : Curve) (lo hi : Float) (requested : UInt64) : Logged Result :=
  s.sampleChunks (fun count => Grid.chunksOf chunkSize count 0) c lo hi requested

/-- Sample a curve **until told to stop**: `stop` is asked before the sample of each index. -/
def sampleUntil (s : Sampler) (stop : Nat → Bool) (c : Curve) (lo hi : Float)
    (requested : UInt64) : Logged Result := do
  match ← s.prepare lo hi requested with
  | none => return .error (.invalidRange lo hi)
  | some g =>
    match g.collectUntil c stop g.size 0 [] [] with
    | .ok points => finish g points
    | .error i =>
      Logged.note .info s!"'{c.source}' cancelled after {i} of {g.evaluated} samples"
      return .error .cancelled

/-- A text to be compiled and sampled. -/
structure Task where
  expression : String
  lo : Float
  hi : Float
  requested : UInt64

/-- Compile a text and **sample the curve**. -/
def perform (s : Sampler) (task : Task) : Logged Result := do
  match ← Curve.compile task.expression with
  | .error cause => return .error (.notAFormula cause)
  | .ok c => s.sample c task.lo task.hi task.requested

end Sampler

end CurvePlot
