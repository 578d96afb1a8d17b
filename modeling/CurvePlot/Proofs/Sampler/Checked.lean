import CurvePlot.Proofs.Expr.Descent.Reading
import CurvePlot.Proofs.Program.Checked
import CurvePlot.Proofs.Sampler.Finiteness

/-!
# Compiling and sampling with checks

A run divides the width of its range by the number of intervals, and in the end takes the number of
points that it kept from the number of samples that it counts. Here a division by zero gives nothing,
and so does a difference that is no count. There is always an interval, and no more points are kept
than there are positions. The samples are counted only up to the largest count, so with as many
intervals as that there is a position more than is counted; but a list that has a length at all is no
longer than the largest count (`Sampler.Emits.countOf_le_evaluated`).

Compiling with checks reads the text, folds the program and measures both programs with checks. A run
with checks leaves the records of the run without (`Sampler.sample?_eq`).
-/

namespace CurvePlot

variable {α β : Type}

/-! ### Records and checks -/

/-- A computation that **leaves records and may leave a domain**. -/
abbrev Checked (α : Type) : Type :=
  OptionT Logged α

/-- What is given if nothing left a domain. -/
def within (a? : Option α) : Checked α :=
  OptionT.mk (pure a?)

theorem within_bind {a? : Option α} {a : α} (h : a? = some a) (f : α → Checked β) :
    within a? >>= f = f a := by
  subst h
  rfl

theorem run_liftM (m : Logged α) : (liftM m : Checked α).run = ⟨some m.value, m.records⟩ := by
  change (⟨some m.value, m.records ++ []⟩ : Logged (Option α)) = _
  rw [List.append_nil]

theorem run_liftM_bind (m : Logged α) (f : α → Checked β) :
    ((liftM m : Checked α) >>= f).run =
      ⟨(f m.value).run.value, m.records ++ (f m.value).run.records⟩ := by
  change (⟨(f m.value).run.value, m.records ++ [] ++ (f m.value).run.records⟩ :
    Logged (Option β)) = _
  rw [List.append_nil]

/-- Go on from a computation that leaves no domain. -/
theorem liftM_bind_of_value {m : Logged α} {f : α → Checked β} {g : α → Logged β}
    (h : f m.value = liftM (g m.value)) : (liftM m : Checked α) >>= f = liftM (m >>= g) := by
  have hrun : (f m.value).run = ⟨some (g m.value).value, (g m.value).records⟩ := by
    rw [h, run_liftM]
  refine OptionT.ext ?_
  rw [run_liftM_bind, run_liftM, hrun]
  rfl

/-! ### Curves -/

namespace Curve

/-- The curve of a text, with checks. -/
def ofSource? (source : String) : Option (Except ParseError Curve) :=
  match parsed : Expr.parse? source with
  | none => none
  | some (.error cause) => some (.error cause)
  | some (.ok tree) =>
    match Program.measure? (Program.lower tree),
      folded : Program.foldInstrs? (Program.lower tree) with
    | some _, some instrs => some (.ok
      { source, tree
        program := ⟨instrs⟩
        tree_eq := Option.some.inj ((Expr.parse?_eq source).symm.trans parsed)
        program_eq := congrArg Program.mk
          (Option.some.inj (folded.symm.trans (Program.foldInstrs?_eq _))) })
    | _, _ => none

theorem ofSource_of_parse {source : String} {tree : Expr} (parsed : Expr.parse source = .ok tree) :
    ofSource source = .ok ⟨source, tree, (Program.ofExpr tree).fold, parsed, rfl⟩ := by
  unfold ofSource
  split
  · rename_i h
    cases parsed.symm.trans h
  · rename_i h
    cases parsed.symm.trans h
    rfl

/-- **Every text is compiled** without leaving a domain. -/
theorem ofSource?_eq (source : String) : ofSource? source = some (ofSource source) := by
  unfold ofSource?
  split
  · rename_i parsed
    rw [Expr.parse?_eq] at parsed
    cases parsed
  · rename_i cause parsed
    rw [Expr.parse?_eq] at parsed
    rw [ofSource_eq_error_iff.mpr (Option.some.inj parsed)]
  · rename_i tree parsed
    have measured := Program.measure?_ofExpr tree
    have folded := Program.foldInstrs?_eq (Program.lower tree)
    split
    · rename_i instrs _ folded'
      obtain rfl := Option.some.inj (folded.symm.trans folded')
      rw [Expr.parse?_eq] at parsed
      rw [ofSource_of_parse (Option.some.inj parsed)]
      rfl
    · rename_i missing
      exact (missing _ _ measured folded).elim

/-- Compile a text, with checks. -/
def compile? (source : String) : Checked (Except ParseError Curve) := do
  match ← within (ofSource? source) with
  | .error cause => return .error cause
  | .ok c => do
    let _ ← within (Program.measure? c.program.instrs)
    Logged.note .debug c.compiledMessage
    return .ok c

theorem compile?_eq (source : String) : compile? source = liftM (compile source) := by
  rw [compile?, within_bind (ofSource?_eq source), compile]
  rcases ofSource source with cause | c
  · rfl
  · have measured : Program.measure? c.program.instrs = some c.program.maxStack := by
      rw [c.program_eq]
      exact Program.measure?_fold_ofExpr c.tree
    simp only [within_bind measured]
    exact liftM_bind_of_value rfl

end Curve

/-! ### Runs -/

namespace Sampler

/-- The quotient of a number by a count, if the count is not zero. -/
def quotient? (a : Float) (n : UInt64) : Option Float :=
  if n = 0 then none else some (a / n.toFloat)

theorem quotient?_intervals (s : Sampler) (lo hi : Float) (requested : UInt64) (a : Float) :
    quotient? a (s.intervals lo hi requested) =
      some (a / (s.intervals lo hi requested).toFloat) := by
  have positive := s.one_le_intervals lo hi requested
  refine if_neg fun hzero => ?_
  rw [hzero] at positive
  exact absurd positive (by decide)

/-- Give a range its grid, with checks. -/
def prepare? (s : Sampler) (lo hi : Float) (requested : UInt64) : Checked (Option Grid) :=
  if (hi - lo).isFinite then do
    let n := s.intervals lo hi requested
    let step ← within (quotient? (hi - lo) n)
    if s.isClamped n requested then
      Logged.note .warn <|
        s!"sampling [{String.ofList (Number.text lo)}, {String.ofList (Number.text hi)}] " ++
          s!"clamped to {n} points (requested {requested})"
    return some ⟨lo, step, n⟩
  else
    return none

theorem prepare?_eq (s : Sampler) (lo hi : Float) (requested : UInt64) :
    s.prepare? lo hi requested = liftM (s.prepare lo hi requested) := by
  rw [prepare?, prepare, grid?]
  split
  · simp only [within_bind (s.quotient?_intervals lo hi requested (hi - lo))]
    split
    · exact liftM_bind_of_value rfl
    · rfl
  · rfl

/-- A run goes on without leaving a domain if it does for the grid of its range. -/
theorem prepare?_bind {s : Sampler} {lo hi : Float} {requested : UInt64}
    {f : Option Grid → Checked Result} {g : Option Grid → Logged Result}
    (hnone : f none = liftM (g none))
    (hsome : ∀ grid, s.grid? lo hi requested = some grid → f (some grid) = liftM (g (some grid))) :
    s.prepare? lo hi requested >>= f = liftM (s.prepare lo hi requested >>= g) := by
  rw [prepare?_eq]
  refine liftM_bind_of_value ?_
  rw [value_prepare]
  cases hg : s.grid? lo hi requested with
  | none => exact hnone
  | some grid => exact hsome grid hg

/-- The **length** of a list of points as a count. A list that is too long for that has none, and
what is given for it means nothing. -/
def countOf (points : List Point) : UInt64 :=
  UInt64.ofNat points.length

/-- End a run that went through its grid, with checks. -/
def finish? (g : Grid) (points : List Point) : Checked Result := do
  let kept := (countOf points).toNat
  let dropped ← within (difference? g.evaluated kept)
  Logged.note .debug <|
    s!"evaluated {g.evaluated} samples, kept {kept}, " ++ s!"dropped {dropped} non-finite"
  return .ok points

section Runs

variable (s : Sampler) (c : Curve) (lo hi : Float) (requested : UInt64)

/-- Sample a curve, with checks. -/
def sample? : Checked Result := do
  match ← s.prepare? lo hi requested with
  | none => return .error (.invalidRange lo hi)
  | some g => finish? g (g.collect c g.size 0 [] [])

/-- Sample a curve in chunks, with checks. -/
def sampleChunks? (split : Nat → List Grid.Chunk) : Checked Result := do
  match ← s.prepare? lo hi requested with
  | none => return .error (.invalidRange lo hi)
  | some g => finish? g (g.collectChunks c (split g.size))

/-- Sample a curve until told to stop, with checks. -/
def sampleUntil? (stop : Nat → Bool) : Checked Result := do
  match ← s.prepare? lo hi requested with
  | none => return .error (.invalidRange lo hi)
  | some g =>
    match g.collectUntil c stop g.size 0 [] [] with
    | .ok points => finish? g points
    | .error i =>
      Logged.note .info s!"'{c.source}' cancelled after {i} of {g.evaluated} samples"
      return .error .cancelled

variable {s c lo hi requested} {points : List Point} {g : Grid}

/-- **No more points are kept than samples are counted**, even if only the largest count keeps the
samples from being counted. -/
theorem Emits.countOf_le_evaluated (h : s.Emits c lo hi requested points)
    (hg : s.grid? lo hi requested = some g) : (countOf points).toNat ≤ g.evaluated := by
  obtain ⟨g', hg', rfl⟩ := h.exists_grid
  obtain rfl : g' = g := Option.some.inj (hg'.symm.trans hg)
  have hlength : ((g'.samplesFrom c.tree 0 g'.size).filter Point.isFinite).length ≤ g'.size :=
    calc ((g'.samplesFrom c.tree 0 g'.size).filter Point.isFinite).length
        ≤ (g'.samplesFrom c.tree 0 g'.size).length := List.length_filter_le _ _
      _ = g'.size := by simp [Grid.samplesFrom]
  rw [countOf, UInt64.toNat_ofNat']
  refine Nat.le_min.mpr ⟨(Nat.mod_le _ _).trans hlength, ?_⟩
  exact Nat.le_of_lt_succ (Nat.mod_lt _ (Nat.two_pow_pos 64))

theorem toNat_countOf (counted : points.length ≤ Binary64.maxCount.toNat) :
    (countOf points).toNat = points.length := by
  rw [countOf, UInt64.toNat_ofNat']
  exact Nat.mod_eq_of_lt (Nat.lt_succ_of_le counted)

variable (counted : ∀ points, s.Emits c lo hi requested points →
  points.length ≤ Binary64.maxCount.toNat)
include counted

/-- A run over its grid ends with a difference that is a count. -/
theorem finish?_of_emits (hg : s.grid? lo hi requested = some g)
    (h : s.Emits c lo hi requested points) : finish? g points = liftM (finish g points) := by
  rw [finish?, within_bind (difference?_of_le (h.countOf_le_evaluated hg)),
    toNat_countOf (counted points h)]
  exact liftM_bind_of_value rfl

theorem sample?_eq : s.sample? c lo hi requested = liftM (s.sample c lo hi requested) := by
  refine prepare?_bind rfl ?_
  intro g hg
  have hvalue : (s.sample c lo hi requested).value = .ok (g.collect c g.size 0 [] []) := by
    rw [sample, Logged.value_bind, value_prepare, hg]
    rfl
  exact finish?_of_emits counted hg (.whole hvalue)

theorem sampleChunks?_eq {split : Nat → List Grid.Chunk}
    (covers : ∀ count, Grid.IsSplit (split count) count) :
    s.sampleChunks? c lo hi requested split =
      liftM (s.sampleChunks split c lo hi requested) := by
  refine prepare?_bind rfl ?_
  intro g hg
  have hvalue : (s.sampleChunks split c lo hi requested).value =
      .ok (g.collectChunks c (split g.size)) := by
    rw [sampleChunks, Logged.value_bind, value_prepare, hg]
    rfl
  exact finish?_of_emits counted hg (.inChunks (covers _) hvalue)

theorem sampleUntil?_eq (stop : Nat → Bool) :
    s.sampleUntil? c lo hi requested stop =
      liftM (s.sampleUntil stop c lo hi requested) := by
  refine prepare?_bind rfl ?_
  intro g hg
  simp only
  cases hrun : g.collectUntil c stop g.size 0 [] [] with
  | error i => exact liftM_bind_of_value rfl
  | ok points =>
    have hvalue : (s.sampleUntil stop c lo hi requested).value = .ok points := by
      rw [sampleUntil, Logged.value_bind, value_prepare, hg]
      simp only [hrun]
      rfl
    exact finish?_of_emits counted hg (.unlessStopped hvalue)

end Runs

/-- Compile a text and sample the curve, with checks. -/
def perform? (s : Sampler) (task : Task) : Checked Result := do
  match ← Curve.compile? task.expression with
  | .error cause => return .error (.notAFormula cause)
  | .ok c => s.sample? c task.lo task.hi task.requested

theorem perform?_eq {s : Sampler} {task : Task}
    (counted : ∀ c points, s.Emits c task.lo task.hi task.requested points →
      points.length ≤ Binary64.maxCount.toNat) :
    s.perform? task = liftM (s.perform task) := by
  rw [perform?, Curve.compile?_eq, perform]
  refine liftM_bind_of_value ?_
  rcases (Curve.compile task.expression).value with cause | c
  · rfl
  · exact sample?_eq (counted c)

end Sampler

end CurvePlot
