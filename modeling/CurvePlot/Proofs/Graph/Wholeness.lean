import CurvePlot.Proofs.Graph.Validity
import CurvePlot.Proofs.Sampler.Finiteness

/-!
# Whole reports and responses

What is reported of a run has three fields that have to fit each other. A report is **whole** if it
is of a success and says nothing of an error, or of a failure and says what the error is and has no
points. A response has the fields of a report and a status, which has to fit them too. However a
report or a response comes about it is whole, and has at most one point more than the cap allows
intervals (`Graph.responses_whole`): a run that is stopped keeps nothing, and what a run keeps are
some of the samples of its grid.
-/

namespace CurvePlot

namespace Sampler

variable {s : Sampler} {c : Curve} {lo hi : Float} {requested : UInt64} {points : List Point}

/-- The number of points that a sampler never exceeds. -/
def mostPoints (s : Sampler) : ℕ :=
  max s.maxPoints.toNat 1 + 1

theorem toNat_intervals_lt (s : Sampler) (lo hi : Float) (requested : UInt64) :
    (s.intervals lo hi requested).toNat < s.mostPoints := by
  rw [toNat_intervals_eq_min, mostPoints]
  omega

/-- A run keeps at most one point at each position of its grid. -/
theorem Emits.length_le (h : s.Emits c lo hi requested points) : points.length ≤ s.mostPoints := by
  obtain ⟨g, hg, rfl⟩ := h.exists_grid
  calc ((g.samplesFrom c.tree 0 g.size).filter Point.isFinite).length
      ≤ (g.samplesFrom c.tree 0 g.size).length := List.length_filter_le _ _
    _ = g.intervals.toNat + 1 := by simp [Grid.samplesFrom, Grid.size]
    _ ≤ s.mostPoints := by
      rw [s.intervals_of_grid? lo hi requested hg]
      exact s.toNat_intervals_lt lo hi requested

/-! ### Reports -/

namespace Report

/-- A report is **whole** if its fields tell the same story. -/
def IsWhole (r : Report) : Prop :=
  (r.succeeded = true ∧ r.error = none) ∨
    (r.succeeded = false ∧ (∃ message, r.error = some message) ∧ r.points = [])

/-- A report is **whole** and has at most so many points. -/
structure WholeWithin (limit : ℕ) (r : Report) : Prop where
  isWhole : r.IsWhole
  length_le : r.points.length ≤ limit

variable {limit : ℕ}

theorem wholeWithin_failure (message : String) : (failure message).WholeWithin limit where
  isWhole := .inr ⟨rfl, ⟨message, rfl⟩, rfl⟩
  length_le := Nat.zero_le limit

/-- The report of a run is whole, whether the run gives points or not. -/
theorem wholeWithin_ofResult {result : Result}
    (h : ∀ points, result = .ok points → points.length ≤ limit) :
    (ofResult result).WholeWithin limit := by
  rcases result with cause | points
  · exact wholeWithin_failure cause.message
  · exact ⟨.inl ⟨rfl, rfl⟩, h points rfl⟩

end Report

open Report (ofResult wholeWithin_failure wholeWithin_ofResult)

theorem wholeWithin_sample (s : Sampler) (c : Curve) (lo hi : Float) (requested : UInt64) :
    (ofResult (s.sample c lo hi requested).value).WholeWithin s.mostPoints := by
  refine wholeWithin_ofResult ?_
  intro points h
  exact (Emits.whole h).length_le

theorem wholeWithin_sampleChunks (s : Sampler) (c : Curve) (lo hi : Float) (requested : UInt64)
    {split : ℕ → List Grid.Chunk} (covers : ∀ count, Grid.IsSplit (split count) count) :
    (ofResult (s.sampleChunks split c lo hi requested).value).WholeWithin s.mostPoints := by
  refine wholeWithin_ofResult ?_
  intro points h
  exact (Emits.inChunks (covers _) h).length_le

theorem wholeWithin_sampleSplit (s : Sampler) (c : Curve) (lo hi : Float) (requested : UInt64) :
    (ofResult (s.sampleSplit c lo hi requested).value).WholeWithin s.mostPoints :=
  wholeWithin_sampleChunks s c lo hi requested (Grid.isSplit_chunksOf _)

theorem wholeWithin_sampleUntil (s : Sampler) (stop : ℕ → Bool) (c : Curve) (lo hi : Float)
    (requested : UInt64) :
    (ofResult (s.sampleUntil stop c lo hi requested).value).WholeWithin s.mostPoints := by
  refine wholeWithin_ofResult ?_
  intro points h
  exact (Emits.unlessStopped h).length_le

theorem wholeWithin_perform (s : Sampler) (task : Task) :
    (ofResult (s.perform task).value).WholeWithin s.mostPoints := by
  rw [s.value_perform_eq]
  rcases Curve.ofSource task.expression with cause | c
  · exact wholeWithin_failure _
  · exact wholeWithin_sample s c task.lo task.hi task.requested

end Sampler

namespace Graph

open Sampler (Report)

/-! ### Responses -/

namespace Response

/-- A response is **whole** if its fields and its status tell the same story. -/
def IsWhole (r : Response) : Prop :=
  (r.success = true ∧ r.error = none ∧ r.status = 200) ∨
    (r.success = false ∧ (∃ message, r.error = some message) ∧ r.points = [] ∧ r.status = 400)

/-- A response is **whole** and has at most so many points. -/
structure WholeWithin (limit : ℕ) (r : Response) : Prop where
  isWhole : r.IsWhole
  length_le : r.points.length ≤ limit

variable {limit : ℕ}

/-- The response to a whole report is whole, since its status goes by its success. -/
theorem wholeWithin_ofReport {report : Report} (h : report.WholeWithin limit) :
    (ofReport report).WholeWithin limit := by
  refine ⟨?_, h.length_le⟩
  obtain ⟨hsuccess, herror⟩ | ⟨hfailure, herror, hpoints⟩ := h.isWhole
  · exact .inl ⟨hsuccess, herror, if_pos hsuccess⟩
  · exact .inr ⟨hfailure, herror, hpoints, if_neg (ne_true_of_eq_false hfailure)⟩

theorem wholeWithin_failure (message : String) : (failure message).WholeWithin limit :=
  wholeWithin_ofReport (Sampler.Report.wholeWithin_failure message)

end Response

open Response

/-! ### Requests -/

theorem wholeWithin_answerWith (s : Sampler) (r : Request) :
    (answerWith s r).value.WholeWithin s.mostPoints := by
  rw [value_answerWith]
  rcases r.faults.head? with _ | cause
  · exact wholeWithin_ofReport (s.wholeWithin_perform r.unchecked)
  · exact wholeWithin_failure cause.message

theorem wholeWithin_answerJson (body : String) :
    (answerJson body).value.WholeWithin Sampler.standard.mostPoints := by
  rw [answerJson]
  rcases Request.ofJson body with cause | r
  · exact wholeWithin_failure cause.message
  · exact wholeWithin_answerWith .standard r

/-- **Responses are whole**, and so is what is reported of runs. Whether a curve is sampled at once,
in chunks that share out the positions, or until told to stop, whether the curve is compiled for the
run, and whether a request comes as such or as a body that may be no request, the outcome is a
success without an error or a failure with one and without points, and the status of a response says
which. The points are at most one more than the cap, which is 2001 for the standard sampler. -/
theorem responses_whole (s : Sampler) :
    (∀ c lo hi requested,
      (ofResult (s.sample c lo hi requested).value).WholeWithin (max s.maxPoints.toNat 1 + 1) ∧
      (∀ split, (∀ count, Grid.IsSplit (split count) count) →
        (ofResult (s.sampleChunks split c lo hi requested).value).WholeWithin
          (max s.maxPoints.toNat 1 + 1)) ∧
      (ofResult (s.sampleSplit c lo hi requested).value).WholeWithin
        (max s.maxPoints.toNat 1 + 1) ∧
      ∀ stop, (ofResult (s.sampleUntil stop c lo hi requested).value).WholeWithin
        (max s.maxPoints.toNat 1 + 1)) ∧
    (∀ task, (ofResult (s.perform task).value).WholeWithin (max s.maxPoints.toNat 1 + 1)) ∧
    (∀ task, (ofResult (Sampler.standard.perform task).value).WholeWithin 2001) ∧
    (∀ r, (answerWith s r).value.WholeWithin (max s.maxPoints.toNat 1 + 1)) ∧
    (∀ r, (answer r).value.WholeWithin 2001) ∧
    (∀ body, (answerJson body).value.WholeWithin 2001) ∧
    (∀ c lo hi requested,
      (Report.ofResult (s.sample c lo hi requested).value).WholeWithin
        (max s.maxPoints.toNat 1 + 1) ∧
      (∀ split, (∀ count, Grid.IsSplit (split count) count) →
        (Report.ofResult (s.sampleChunks split c lo hi requested).value).WholeWithin
          (max s.maxPoints.toNat 1 + 1)) ∧
      (Report.ofResult (s.sampleSplit c lo hi requested).value).WholeWithin
        (max s.maxPoints.toNat 1 + 1) ∧
      ∀ stop, (Report.ofResult (s.sampleUntil stop c lo hi requested).value).WholeWithin
        (max s.maxPoints.toNat 1 + 1)) ∧
    (∀ task, (Report.ofResult (s.perform task).value).WholeWithin
      (max s.maxPoints.toNat 1 + 1)) ∧
    ∀ task, (Report.ofResult (Sampler.standard.perform task).value).WholeWithin 2001 := by
  refine ⟨?_, ?_, ?_, wholeWithin_answerWith s, wholeWithin_answerWith .standard,
    wholeWithin_answerJson, ?_, s.wholeWithin_perform, Sampler.standard.wholeWithin_perform⟩
  · intro c lo hi requested
    refine ⟨wholeWithin_ofReport (s.wholeWithin_sample c lo hi requested), ?_,
      wholeWithin_ofReport (s.wholeWithin_sampleSplit c lo hi requested), ?_⟩
    · intro split covers
      exact wholeWithin_ofReport (s.wholeWithin_sampleChunks c lo hi requested covers)
    · intro stop
      exact wholeWithin_ofReport (s.wholeWithin_sampleUntil stop c lo hi requested)
  · intro task
    exact wholeWithin_ofReport (s.wholeWithin_perform task)
  · intro task
    exact wholeWithin_ofReport (Sampler.standard.wholeWithin_perform task)
  · intro c lo hi requested
    refine ⟨s.wholeWithin_sample c lo hi requested, ?_,
      s.wholeWithin_sampleSplit c lo hi requested, ?_⟩
    · intro split covers
      exact s.wholeWithin_sampleChunks c lo hi requested covers
    · intro stop
      exact s.wholeWithin_sampleUntil stop c lo hi requested

end Graph

end CurvePlot
