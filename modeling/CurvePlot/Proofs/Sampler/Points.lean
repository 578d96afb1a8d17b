import CurvePlot.Proofs.Program.Evaluation
import CurvePlot.Sampler.Run
import Mathlib.Data.List.Basic

/-!
# The points of a curve

What a run is to give is said without grids, programs and scratch stacks: `Sampler.samples`
are the values of the formula itself at all positions of a range, in order, whether finite or
not. A run keeps exactly the finite ones (`Sampler.sample_eq_filter_samples`).
-/

namespace CurvePlot

/-! ### Curves and their formulas -/

/-- On any scratch stack, a curve has the value of its formula. -/
theorem Curve.evalOn_fst (c : Curve) (x : Float) (scratch : List Float) :
    (c.evalOn x scratch).1 = c.tree.eval x := by
  rw [Curve.evalOn, c.program_eq, Program.evalOn_fold_ofExpr]

/-- A text that spells a formula has a curve, and the curve is of that formula. -/
theorem Curve.exists_ofSource {source : String} {t : Expr} (parsed : Expr.parse source = .ok t) :
    ∃ c, Curve.ofSource source = .ok c ∧ c.tree = t := by
  unfold Curve.ofSource
  split
  · rename_i cause h
    rw [parsed] at h
    cases h
  · rename_i tree h
    rw [parsed] at h
    cases h
    exact ⟨_, rfl, rfl⟩

/-- A text has no curve just if it spells no formula, and for the same cause. -/
theorem Curve.ofSource_eq_error_iff {source : String} {cause : ParseError} :
    Curve.ofSource source = .error cause ↔ Expr.parse source = .error cause := by
  rcases parsed : Expr.parse source with other | t
  · have h : Curve.ofSource source = .error other := by
      unfold Curve.ofSource
      split
      · rename_i hother
        rw [parsed] at hother
        cases hother
        rfl
      · rename_i hok
        rw [parsed] at hok
        cases hok
    rw [h, Except.error.injEq, Except.error.injEq]
  · obtain ⟨c, hc, -⟩ := Curve.exists_ofSource parsed
    rw [hc]
    simp

/-- Compiling a text gives its curve; the record that it leaves is all that is new. -/
@[simp] theorem Curve.value_compile (source : String) :
    (Curve.compile source).value = Curve.ofSource source := by
  rw [Curve.compile]
  split
  · rename_i h
    rw [h]
    rfl
  · rename_i h
    rw [h]
    rfl

/-! ### Going through a grid -/

/-- Whether a sample is kept. -/
def Point.isFinite (p : Point) : Bool :=
  p.y.isFinite

namespace Grid

/-- The samples of a formula at `count` positions from the `i`-th on, **kept or not**. -/
def samplesFrom (g : Grid) (t : Expr) (i count : Nat) : List Point :=
  (List.range' i count).map fun j => ⟨g.position j, t.eval (g.position j)⟩

theorem samplesFrom_succ (g : Grid) (t : Expr) (i count : Nat) :
    g.samplesFrom t i (count + 1) =
      ⟨g.position i, t.eval (g.position i)⟩ :: g.samplesFrom t (i + 1) count := by
  rw [samplesFrom, List.range'_succ, List.map_cons]
  rfl

/-- One sample is what the formula says, whatever the samples before it left behind. -/
theorem exists_sample_eq (g : Grid) (c : Curve) (i : Nat) (scratch : List Float) :
    ∃ after, g.sample c i scratch =
      (Option.guard Point.isFinite ⟨g.position i, c.tree.eval (g.position i)⟩, after) := by
  refine ⟨(c.evalOn (g.position i) scratch).2, ?_⟩
  rw [← c.evalOn_fst (g.position i) scratch]
  rfl

/-- **Going through a grid** keeps the finite samples, in order, after what was kept before. -/
theorem collect_eq (g : Grid) (c : Curve) (count i : Nat) (scratch : List Float)
    (kept : List Point) :
    g.collect c count i scratch kept =
      kept.reverse ++ (g.samplesFrom c.tree i count).filter Point.isFinite := by
  induction count generalizing i scratch kept with
  | zero => simp [collect, samplesFrom]
  | succ count ih =>
    obtain ⟨after, h⟩ := g.exists_sample_eq c i scratch
    rw [collect, h, samplesFrom_succ]
    -- the scratch stack goes on to the next position, whether the sample is kept or not
    by_cases hp : Point.isFinite ⟨g.position i, c.tree.eval (g.position i)⟩ = true
    · rw [Option.guard_eq_some_iff.mpr ⟨rfl, hp⟩, List.filter_cons_of_pos hp]
      simp only
      rw [ih, List.reverse_cons, List.append_assoc, List.singleton_append]
    · rw [Option.guard_eq_none_iff.mpr (by simpa using hp), List.filter_cons_of_neg hp]
      exact ih (i + 1) after kept

end Grid

/-! ### Runs -/

namespace Sampler

/-- The **samples of a formula** over a range: its values at the left end of the range and at
the right end of every interval, in order, whether finite or not. -/
def samples (s : Sampler) (t : Expr) (lo hi : Float) (requested : UInt64) : List Point :=
  let n := s.intervals lo hi requested
  let step := (hi - lo) / n.toFloat
  (List.range (n.toNat + 1)).map fun i =>
    let x := lo + (UInt64.ofNat i).toFloat * step
    ⟨x, t.eval x⟩

theorem length_samples (s : Sampler) (t : Expr) (lo hi : Float) (requested : UInt64) :
    (s.samples t lo hi requested).length = (s.intervals lo hi requested).toNat + 1 := by
  simp [samples]

@[simp] theorem value_prepare (s : Sampler) (lo hi : Float) (requested : UInt64) :
    (s.prepare lo hi requested).value = s.grid? lo hi requested := by
  unfold prepare
  split
  · rename_i h
    rw [h]
    rfl
  · rename_i g h
    rw [h]
    split <;> rfl

theorem records_finish (g : Grid) (points : List Point) :
    (finish g points).records =
      [⟨.debug, s!"evaluated {g.evaluated} samples, kept {points.length}, " ++
        s!"dropped {g.evaluated - points.length} non-finite"⟩] := rfl

theorem grid?_eq_none_iff (s : Sampler) (lo hi : Float) (requested : UInt64) :
    s.grid? lo hi requested = none ↔ (hi - lo).isFinite = false := by
  simp [grid?]

/-- A run over a range of finite width keeps the finite samples and leaves one more record. -/
theorem sample_of_isFinite (s : Sampler) (c : Curve) {lo hi : Float} (requested : UInt64)
    (finite : (hi - lo).isFinite = true) :
    let kept := (s.samples c.tree lo hi requested).filter Point.isFinite
    ∃ g : Grid, g.intervals = s.intervals lo hi requested ∧
      (s.sample c lo hi requested).value = .ok kept ∧
      (s.sample c lo hi requested).records =
        (s.prepare lo hi requested).records ++ (finish g kept).records := by
  intro kept
  let g : Grid := ⟨lo, (hi - lo) / (s.intervals lo hi requested).toFloat,
    s.intervals lo hi requested⟩
  have hgrid : s.grid? lo hi requested = some g := by
    rw [grid?, if_pos finite]
  have hkept : g.collect c g.size 0 [] [] = kept := by
    rw [Grid.collect_eq, List.reverse_nil, List.nil_append, Grid.samplesFrom,
      ← List.range_eq_range']
    rfl
  refine ⟨g, rfl, ?_, ?_⟩
  · rw [sample, Logged.value_bind, value_prepare, hgrid, ← hkept]
    rfl
  · rw [sample, Logged.records_bind, value_prepare, hgrid, ← hkept]

/-- A run over any other range fails. -/
theorem value_sample_of_not_isFinite (s : Sampler) (c : Curve) {lo hi : Float}
    (requested : UInt64) (infinite : (hi - lo).isFinite = false) :
    (s.sample c lo hi requested).value = .error (.invalidRange lo hi) := by
  rw [sample, Logged.value_bind, value_prepare, (s.grid?_eq_none_iff lo hi requested).mpr infinite]
  rfl

/-- Performing a task is sampling the curve of its text, if the text has one. -/
theorem value_perform_eq (s : Sampler) (task : Task) :
    (s.perform task).value =
      match Curve.ofSource task.expression with
      | .error cause => .error (.notAFormula cause)
      | .ok c => (s.sample c task.lo task.hi task.requested).value := by
  rw [perform, Logged.value_bind, Curve.value_compile]
  rcases Curve.ofSource task.expression with cause | c
  · rfl
  · rfl

theorem value_perform (s : Sampler) {source : String} {c : Curve}
    (h : Curve.ofSource source = .ok c) (lo hi : Float) (requested : UInt64) :
    (s.perform ⟨source, lo, hi, requested⟩).value = (s.sample c lo hi requested).value := by
  rw [value_perform_eq, h]

/-- **A run gives the finite samples** of its formula. Over a range of finite width the points
are the samples with a finite value, each once and in order, and what is kept and what is
dropped make up all `n + 1` samples, which the last record says as far as counts go. Over any
other range the run fails. -/
theorem sample_eq_filter_samples {source : String} {t : Expr} (parsed : Expr.parse source = .ok t)
    (s : Sampler) (lo hi : Float) (requested : UInt64) :
    ∃ c, Curve.ofSource source = .ok c ∧
      ((hi - lo).isFinite = true →
        let n := s.intervals lo hi requested
        let kept := (s.samples t lo hi requested).filter Point.isFinite
        let dropped := (s.samples t lo hi requested).filter fun p => !p.isFinite
        (s.sample c lo hi requested).value = .ok kept ∧
        (s.perform ⟨source, lo, hi, requested⟩).value = .ok kept ∧
        kept.length + dropped.length = n.toNat + 1 ∧
        (n < Binary64.maxCount → (s.sample c lo hi requested).records.getLast? =
          some ⟨.debug, s!"evaluated {n.toNat + 1} samples, kept {kept.length}, " ++
            s!"dropped {dropped.length} non-finite"⟩)) ∧
      ((hi - lo).isFinite = false →
        (s.sample c lo hi requested).value = .error (.invalidRange lo hi) ∧
        (s.perform ⟨source, lo, hi, requested⟩).value = .error (.invalidRange lo hi) ∧
        SamplingError.message (.invalidRange lo hi) =
          s!"Invalid range: minX = {String.ofList (Number.text lo)}, " ++
            s!"maxX = {String.ofList (Number.text hi)}") := by
  obtain ⟨c, hc, rfl⟩ := Curve.exists_ofSource parsed
  refine ⟨c, hc, fun finite => ?_, fun infinite => ?_⟩
  · intro n kept dropped
    obtain ⟨g, hg, hvalue, hrecords⟩ := s.sample_of_isFinite c requested finite
    have hsum : kept.length + dropped.length = n.toNat + 1 := by
      rw [← s.length_samples c.tree lo hi requested]
      exact (List.length_eq_length_filter_add Point.isFinite).symm
    refine ⟨hvalue, ?_, hsum, fun hn => ?_⟩
    · rw [s.value_perform hc, hvalue]
    · -- only the largest count would have no room for one more sample
      have hcount : g.evaluated = n.toNat + 1 := by
        rw [Grid.evaluated, Grid.size, hg]
        exact Nat.min_eq_left (UInt64.lt_iff_toNat_lt.mp hn)
      have hdropped : g.evaluated - kept.length = dropped.length := by omega
      rw [hrecords, records_finish, List.getLast?_concat, hdropped, hcount]
  · have hvalue := s.value_sample_of_not_isFinite c requested infinite
    exact ⟨hvalue, by rw [s.value_perform hc, hvalue], rfl⟩

theorem sample_x :
    ∃ c, Curve.ofSource "x" = .ok c ∧
      (standard.sample c 0 1 3).value =
        .ok ((standard.samples .var 0 1 3).filter Point.isFinite) := by
  have lexeme : Token.lexeme 1 'x' [] = .ok (.name "x", 0) := rfl
  have scanned : Token.scan "x" = .ok [⟨.name "x", 1⟩] := by
    rw [Token.scan, show "x".toList = ['x'] from rfl, Token.scanFrom, lexeme]
    simp [Token.scanFrom, Text.isSeparator]
  have parsed : Expr.parse "x" = .ok .var := by
    rw [Expr.parse, scanned]
    rfl
  have bounded : (1 - 0 : Float).isFinite = true := by decide +kernel
  obtain ⟨c, hc, finite, -⟩ := sample_eq_filter_samples parsed standard 0 1 3
  exact ⟨c, hc, (finite bounded).1⟩

end Sampler

end CurvePlot
