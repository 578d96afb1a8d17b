import CurvePlot.Proofs.Sampler.Points
import Mathlib

/-!
# All ways of sampling agree

However the positions of a grid are shared out in consecutive chunks, and whatever the scratch
stacks of the chunks hold at first, the chunks together give the finite samples of the whole grid in
order (`Grid.collectChunks_eq`). A run that may be told to stop goes through the same positions, and
gives the same points unless it is told to. So a run in chunks and a run that is never stopped end as
a plain run does, records included, and a run that is stopped at once keeps nothing
(`Sampler.runs_agree`).
-/

namespace CurvePlot

namespace Grid

/-! ### Chunks -/

/-- Each chunk begins where the one before it ends, and the first at the `i`-th position. -/
def Consecutive : Nat → List Chunk → Prop
  | _, [] => True
  | i, chunk :: later => chunk.first = i ∧ Consecutive (i + chunk.count) later

/-- The chunks are a **split** of `count` positions, from the first position on. -/
structure IsSplit (chunks : List Chunk) (count : Nat) : Prop where
  consecutive : Consecutive 0 chunks
  sum_count : (chunks.map Chunk.count).sum = count

theorem samplesFrom_add (g : Grid) (t : Expr) (i m n : Nat) :
    g.samplesFrom t i (m + n) = g.samplesFrom t i m ++ g.samplesFrom t (i + m) n := by
  simp only [samplesFrom, ← List.range'_append_1, List.map_append]

/-- The samples of one chunk are those of its positions, whatever its scratch stack holds. -/
theorem filterMap_sampleEach (g : Grid) (c : Curve) (count i : Nat) (scratch : List Float) :
    (g.sampleEach c count i scratch).filterMap id =
      (g.samplesFrom c.tree i count).filter Point.isFinite := by
  induction count generalizing i scratch with
  | zero => rfl
  | succ count ih =>
    obtain ⟨after, h⟩ := g.exists_sample_eq c i scratch
    rw [sampleEach, h, samplesFrom_succ]
    by_cases hp : Point.isFinite ⟨g.position i, c.tree.eval (g.position i)⟩ = true
    · rw [Option.guard_eq_some_iff.mpr ⟨rfl, hp⟩, List.filter_cons_of_pos hp]
      exact congrArg _ (ih (i + 1) after)
    · rw [Option.guard_eq_none_iff.mpr (by simpa using hp), List.filter_cons_of_neg hp]
      exact ih (i + 1) after

/-- **Consecutive chunks** together give the finite samples of all of their positions. -/
theorem collectChunks_eq (g : Grid) (c : Curve) {chunks : List Chunk} {i : Nat}
    (h : Consecutive i chunks) :
    g.collectChunks c chunks =
      (g.samplesFrom c.tree i (chunks.map Chunk.count).sum).filter Point.isFinite := by
  induction chunks generalizing i with
  | nil => rfl
  | cons chunk later ih =>
    obtain ⟨rfl, hlater⟩ := h
    have hrest := ih hlater
    unfold collectChunks at hrest ⊢
    simp only [List.flatMap_cons, List.filterMap_append, List.map_cons, List.sum_cons] at hrest ⊢
    rw [filterMap_sampleEach, hrest, samplesFrom_add, List.filter_append]

theorem isSplit_chunksOf (size count : Nat) : IsSplit (chunksOf size count 0) count := by
  suffices h : ∀ i, Consecutive i (chunksOf size count i) ∧
      ((chunksOf size count i).map Chunk.count).sum = count from ⟨(h 0).1, (h 0).2⟩
  intro i
  fun_induction chunksOf size count i with
  | case1 count i h => simp [Consecutive]
  | case2 count i h ih =>
    refine ⟨⟨rfl, ih.1⟩, ?_⟩
    rw [List.map_cons, List.sum_cons, ih.2]
    change size + (count - size) = count
    omega

/-! ### Runs that may be stopped -/

/-- A run that is never told to stop gives what a plain one gives. -/
theorem collectUntil_of_never (g : Grid) (c : Curve) {stop : Nat → Bool}
    (never : ∀ i, stop i = false) (count i : Nat) (scratch : List Float) (kept : List Point) :
    g.collectUntil c stop count i scratch kept = .ok (g.collect c count i scratch kept) := by
  fun_induction collect g c count i scratch kept with
  | case1 => rfl
  | case2 _ _ _ _ _ _ h ih | case3 _ _ _ _ _ h ih =>
    rw [collectUntil, if_neg (by simp [never])]
    simp only [h, ih]

/-- A run that is told to stop before its first sample ends there. -/
theorem collectUntil_of_stop (g : Grid) (c : Curve) {stop : Nat → Bool} {i : Nat}
    (h : stop i = true) (count : Nat) (scratch : List Float) (kept : List Point) :
    g.collectUntil c stop (count + 1) i scratch kept = .error i := by
  rw [collectUntil, if_pos h]

end Grid

/-! ### Runs -/

namespace Sampler

variable (s : Sampler) (c : Curve) (lo hi : Float) (requested : UInt64)

/-- Runs that do the same with the grid of a range are the same. -/
theorem prepare_bind_congr {f f' : Option Grid → Logged Result}
    (h : f (s.grid? lo hi requested) = f' (s.grid? lo hi requested)) :
    (s.prepare lo hi requested >>= f) = s.prepare lo hi requested >>= f' := by
  rw [← value_prepare] at h
  simp only [bind, Logged.bind, h]

theorem intervals_of_grid? {g : Grid} (h : s.grid? lo hi requested = some g) :
    g.intervals = s.intervals lo hi requested := by
  unfold grid? at h
  split at h
  · cases h
    rfl
  · cases h

/-- **A run in chunks** is a run, however the positions are shared out. -/
theorem sampleChunks_eq_sample {split : Nat → List Grid.Chunk}
    (h : Grid.IsSplit (split ((s.intervals lo hi requested).toNat + 1))
      ((s.intervals lo hi requested).toNat + 1)) :
    s.sampleChunks split c lo hi requested = s.sample c lo hi requested := by
  refine s.prepare_bind_congr lo hi requested ?_
  cases hg : s.grid? lo hi requested with
  | none => rfl
  | some g =>
    have size : g.size = (s.intervals lo hi requested).toNat + 1 := by
      rw [Grid.size, s.intervals_of_grid? lo hi requested hg]
    have points : g.collectChunks c (split g.size) = g.collect c g.size 0 [] [] := by
      rw [size, g.collectChunks_eq c h.consecutive, h.sum_count, Grid.collect_eq,
        List.reverse_nil, List.nil_append]
    simp only [points]

theorem sampleSplit_eq_sample :
    s.sampleSplit c lo hi requested = s.sample c lo hi requested :=
  s.sampleChunks_eq_sample c lo hi requested (Grid.isSplit_chunksOf _ _)

/-- **A run that is never stopped** is a run. -/
theorem sampleUntil_of_never {stop : Nat → Bool} (never : ∀ i, stop i = false) :
    s.sampleUntil stop c lo hi requested = s.sample c lo hi requested := by
  refine s.prepare_bind_congr lo hi requested ?_
  cases s.grid? lo hi requested with
  | none => rfl
  | some g => simp only [g.collectUntil_of_never c never]

/-- **A run that is stopped at once** fails, and says so unless the range is at fault. -/
theorem value_sampleUntil_of_stop {stop : Nat → Bool} (h : stop 0 = true) :
    (s.sampleUntil stop c lo hi requested).value =
      if (hi - lo).isFinite then .error .cancelled else .error (.invalidRange lo hi) := by
  rw [sampleUntil, Logged.value_bind, value_prepare]
  cases finite : (hi - lo).isFinite with
  | false => simp [grid?, finite]
  | true => simp [grid?, finite, Grid.size, Grid.collectUntil_of_stop _ c h]

/-- A plain run refuses just the ranges whose width is not finite. -/
theorem value_sample_eq_invalidRange_iff :
    (s.sample c lo hi requested).value = .error (.invalidRange lo hi) ↔
      (hi - lo).isFinite = false := by
  cases h : (hi - lo).isFinite with
  | false => simp [s.value_sample_of_not_isFinite c requested h]
  | true =>
    obtain ⟨g, -, hvalue, -⟩ := s.sample_of_isFinite c requested h
    simp [hvalue]

/-- **All ways of sampling agree.** However the `n + 1` positions of a range are shared out in
consecutive chunks, each with anything on its scratch stack, a run in these chunks ends as a plain
run does; so does a run that is asked before every sample whether it is to stop, and never is. A run
that is to stop at once fails as cancelled, with no points, unless a plain run refuses the range,
which it then refuses too. -/
theorem runs_agree :
    (∀ split : Nat → List Grid.Chunk,
      Grid.IsSplit (split ((s.intervals lo hi requested).toNat + 1))
        ((s.intervals lo hi requested).toNat + 1) →
      s.sampleChunks split c lo hi requested = s.sample c lo hi requested) ∧
    s.sampleSplit c lo hi requested = s.sample c lo hi requested ∧
    s.sampleUntil (fun _ => false) c lo hi requested = s.sample c lo hi requested ∧
    ((s.sampleUntil (fun _ => true) c lo hi requested).value = .error (.invalidRange lo hi) ↔
      (s.sample c lo hi requested).value = .error (.invalidRange lo hi)) ∧
    ((s.sample c lo hi requested).value ≠ .error (.invalidRange lo hi) →
      (s.sampleUntil (fun _ => true) c lo hi requested).value = .error .cancelled) ∧
    SamplingError.message .cancelled = "sampling was cancelled" := by
  have stopped : (s.sampleUntil (fun _ => true) c lo hi requested).value =
      if (hi - lo).isFinite then .error .cancelled else .error (.invalidRange lo hi) :=
    s.value_sampleUntil_of_stop c lo hi requested rfl
  rw [stopped, ne_eq, value_sample_eq_invalidRange_iff]
  refine ⟨fun split h => s.sampleChunks_eq_sample c lo hi requested h,
    s.sampleSplit_eq_sample c lo hi requested,
    s.sampleUntil_of_never c lo hi requested fun _ => rfl, ?_, ?_, rfl⟩
  · cases (hi - lo).isFinite <;> simp
  · cases (hi - lo).isFinite <;> simp

end Sampler

end CurvePlot
