import CurvePlot.Proofs.Graph.Wholeness
import CurvePlot.Proofs.Sampler.Checked

/-!
# No step leaves its domain

What is done for a request is done in steps, and some of them have a domain: positions in a text,
counts that are counted down, arguments and slots that are taken by their index, instructions that are
taken back, a height that is to be a count, a number of intervals to divide by, and a number of points
to take away. All the steps have been said with checks, so that a step outside of its domain gives
nothing. Whatever the text, the tree, the instructions, the sampler and the body are, the steps with
checks give what is given without (`no_step_leaves_domain`).
-/

namespace CurvePlot

/-- Below the largest count, a cap keeps every list of points short enough to be counted. -/
theorem Sampler.Emits.length_le_maxCount {s : Sampler} {c : Curve} {lo hi : Float}
    {requested : UInt64} {points : List Point} (h : s.Emits c lo hi requested points)
    (hcap : s.maxPoints < Binary64.maxCount) : points.length ≤ Binary64.maxCount.toNat := by
  have hlength := h.length_le
  rw [UInt64.lt_iff_toNat_lt] at hcap
  have hmax : Binary64.maxCount.toNat = 2 ^ 64 - 1 := rfl
  rw [Sampler.mostPoints] at hlength
  omega

namespace Graph

/-- Answer a request with a given sampler, with checks. -/
def answerWith? (s : Sampler) (r : Request) : Checked Response :=
  match r.task with
  | .ok task => do
    let result ← s.perform? task
    return Response.ofResult result
  | .error cause => do
    Logged.note .debug ("rejected graph request: " ++ cause.message)
    return .failure cause.message

/-- Answer a request that is still a body, with checks. -/
def answerJson? (body : String) : Checked Response :=
  match Request.ofJson body with
  | .ok r => answerWith? .standard r
  | .error cause => return .failure cause.message

theorem answerWith?_eq {s : Sampler} (hcap : s.maxPoints < Binary64.maxCount) (r : Request) :
    answerWith? s r = liftM (answerWith s r) := by
  have performed (task : Sampler.Task) : s.perform? task = liftM (s.perform task) :=
    Sampler.perform?_eq fun _ _ h => h.length_le_maxCount hcap
  rw [answerWith?, answerWith]
  rcases r.task with cause | task
  · exact liftM_bind_of_value rfl
  · simp only [performed]
    exact liftM_bind_of_value rfl

theorem answerJson?_eq (body : String) : answerJson? body = liftM (answerJson body) := by
  rw [answerJson?, answerJson]
  rcases Request.ofJson body with cause | r
  · rfl
  · exact answerWith?_eq (by decide) r

end Graph

/-- **No step leaves its domain.** Every text is scanned by positions and read by rules that call each
other, for the same outcome. For every list of instructions, stack-safe or not, the output of the
folder is as long as its shadow stack, what the folder takes back is there, and the greatest height
is a count; for the programs of a formula it is the stack that they need. A range is always divided
by some intervals. Runs of every kind take no more points from the samples than are counted, also
with as many intervals as there can be, so with checks they are what they are without, if only their
points have a length at all. Every text is compiled with checks as without, and every body is
answered so. -/
theorem no_step_leaves_domain :
    (∀ source, Expr.parse? source = some (Expr.parse source)) ∧
    (∀ instrs, let s := instrs.foldl Program.Folding.step ⟨[], []⟩
      s.known.length ≤ s.emitted.length ∧
      Program.foldInstrs? instrs = some (Program.foldInstrs instrs) ∧
      (Program.measure? instrs).isSome = true) ∧
    (∀ t, Program.measure? (Program.ofExpr t).instrs = some (Program.ofExpr t).maxStack ∧
      Program.measure? (Program.ofExpr t).fold.instrs = some (Program.ofExpr t).fold.maxStack) ∧
    (∀ source, Curve.compile? source = liftM (Curve.compile source)) ∧
    (∀ (s : Sampler) (lo hi : Float) (requested : UInt64),
      0 < (s.intervals lo hi requested).toNat ∧
      s.prepare? lo hi requested = liftM (s.prepare lo hi requested)) ∧
    (∀ (s : Sampler) (c : Curve) (lo hi : Float) (requested : UInt64) points g,
      s.Emits c lo hi requested points → s.grid? lo hi requested = some g →
        (difference? g.evaluated (Sampler.countOf points).toNat).isSome = true) ∧
    (∀ (s : Sampler) (c : Curve) (lo hi : Float) (requested : UInt64),
      (∀ points, s.Emits c lo hi requested points → points.length ≤ Binary64.maxCount.toNat) →
        s.sample? c lo hi requested = liftM (s.sample c lo hi requested) ∧
        (∀ split, (∀ count, Grid.IsSplit (split count) count) →
          s.sampleChunks? c lo hi requested split =
            liftM (s.sampleChunks split c lo hi requested)) ∧
        ∀ stop, s.sampleUntil? c lo hi requested stop =
          liftM (s.sampleUntil stop c lo hi requested)) ∧
    (∀ (s : Sampler) (task : Sampler.Task),
      (∀ c points, s.Emits c task.lo task.hi task.requested points →
        points.length ≤ Binary64.maxCount.toNat) →
        s.perform? task = liftM (s.perform task)) ∧
    ∀ body, Graph.answerJson? body = liftM (Graph.answerJson body) := by
  refine ⟨Expr.parse?_eq, ?_, ?_, Curve.compile?_eq, ?_, ?_, ?_, ?_, Graph.answerJson?_eq⟩
  · intro instrs
    refine ⟨Program.Folding.covered_foldl instrs, Program.foldInstrs?_eq instrs, ?_⟩
    rw [Program.measure?_eq]
    rfl
  · exact fun t => ⟨Program.measure?_ofExpr t, Program.measure?_fold_ofExpr t⟩
  · intro s lo hi requested
    exact ⟨s.one_le_intervals lo hi requested, s.prepare?_eq lo hi requested⟩
  · intro s c lo hi requested points g h hg
    rw [difference?_of_le (h.countOf_le_evaluated hg)]
    rfl
  · intro s c lo hi requested counted
    refine ⟨Sampler.sample?_eq counted, ?_, Sampler.sampleUntil?_eq counted⟩
    intro split covers
    exact Sampler.sampleChunks?_eq counted covers
  · intro s task counted
    exact Sampler.perform?_eq counted

/-- A formula without any finite value is sampled with as many intervals as there can be. -/
theorem no_step_leaves_domain_largest :
    ∃ c, Curve.ofSource "1/0" = .ok c ∧
      (⟨20.0, Binary64.maxCount⟩ : Sampler).intervals 0 1 Binary64.maxCount = Binary64.maxCount ∧
      (⟨20.0, Binary64.maxCount⟩ : Sampler).sample? c 0 1 Binary64.maxCount =
        liftM ((⟨20.0, Binary64.maxCount⟩ : Sampler).sample c 0 1 Binary64.maxCount) := by
  have parsed : Expr.parse "1/0" = .ok (.binary .div (.const 1) (.const 0)) := by decide +kernel
  have infinite : (1 / 0 : Float).isFinite = false := by decide +kernel
  obtain ⟨c, hc, htree⟩ := Curve.exists_ofSource parsed
  obtain ⟨-, -, -, -, -, -, runs, -⟩ := no_step_leaves_domain
  refine ⟨c, hc, by decide +kernel, (runs _ c 0 1 Binary64.maxCount ?_).1⟩
  intro points h
  have hnone : points = [] := by
    obtain ⟨g, -, rfl⟩ := h.exists_grid
    refine List.filter_eq_nil_iff.mpr fun p hp => ?_
    obtain ⟨i, -, rfl⟩ := Grid.mem_samplesFrom_iff.mp hp
    rw [htree]
    exact Bool.eq_false_iff.mp infinite
  rw [hnone]
  exact Nat.zero_le _

end CurvePlot
