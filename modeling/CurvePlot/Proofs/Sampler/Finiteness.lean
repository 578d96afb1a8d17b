import CurvePlot.Proofs.Sampler.Agreement
import CurvePlot.Proofs.Sampler.Positions

/-!
# Where points are finite

A run only looks at the values of a formula, so every point that it gives has a finite `y`
(`Sampler.Emits.isFinite_y`). That a range has a finite width does not keep its positions finite:
the last ones may be rounded past the largest double. All of those are one infinity, so whether
every `x` is finite can be told from the last position alone
(`Sampler.Emits.isFinite_x_iff`), and bounds of at most `2 ^ 1021` are safe.
-/

namespace CurvePlot

open Binary64

namespace Grid

/-- A run that ends by itself gives what a plain one gives. -/
theorem eq_collect_of_collectUntil {g : Grid} {c : Curve} {stop : ℕ → Bool} {count i : ℕ}
    {scratch : List Float} {kept points : List Point}
    (h : g.collectUntil c stop count i scratch kept = .ok points) :
    points = g.collect c count i scratch kept := by
  fun_induction collect g c count i scratch kept with
  | case1 => exact (Except.ok.inj h).symm
  | case2 _ _ _ _ _ _ hsample ih | case3 _ _ _ _ _ hsample ih =>
    rw [collectUntil] at h
    split at h
    · cases h
    · rw [hsample] at h
      exact ih h

theorem mem_samplesFrom_iff {g : Grid} {t : Expr} {i count : ℕ} {p : Point} :
    p ∈ g.samplesFrom t i count ↔
      ∃ j, (i ≤ j ∧ j < i + count) ∧ ⟨g.position j, t.eval (g.position j)⟩ = p := by
  simp [samplesFrom]

end Grid

namespace Sampler

variable (s : Sampler) (c : Curve) (lo hi : Float) (requested : UInt64)

/-- The last position of the grid for a range, where its right end should be. -/
def lastPosition : Float :=
  let n := s.intervals lo hi requested
  lo + n.toFloat * ((hi - lo) / n.toFloat)

/-- A sampler **emits** some points if they are the outcome of a run, whether a plain one, one in
chunks or one that might have been stopped. -/
inductive Emits : List Point → Prop
  | whole {points : List Point} (h : (s.sample c lo hi requested).value = .ok points) : Emits points
  | inChunks {points : List Point} {split : ℕ → List Grid.Chunk}
      (covers : Grid.IsSplit (split ((s.intervals lo hi requested).toNat + 1))
        ((s.intervals lo hi requested).toNat + 1))
      (h : (s.sampleChunks split c lo hi requested).value = .ok points) : Emits points
  | unlessStopped {points : List Point} {stop : ℕ → Bool}
      (h : (s.sampleUntil stop c lo hi requested).value = .ok points) : Emits points

variable {s c lo hi requested} {points : List Point}

theorem exists_grid_of_sample (h : (s.sample c lo hi requested).value = .ok points) :
    ∃ g : Grid, s.grid? lo hi requested = some g ∧ points = g.collect c g.size 0 [] [] := by
  rw [sample, Logged.value_bind, value_prepare] at h
  cases hg : s.grid? lo hi requested with
  | none =>
    rw [hg] at h
    cases h
  | some g =>
    rw [hg] at h
    exact ⟨g, rfl, (Except.ok.inj h).symm⟩

theorem exists_grid_of_sampleUntil {stop : ℕ → Bool}
    (h : (s.sampleUntil stop c lo hi requested).value = .ok points) :
    ∃ g : Grid, s.grid? lo hi requested = some g ∧ points = g.collect c g.size 0 [] [] := by
  rw [sampleUntil, Logged.value_bind, value_prepare] at h
  cases hg : s.grid? lo hi requested with
  | none =>
    rw [hg] at h
    cases h
  | some g =>
    rw [hg] at h
    simp only at h
    split at h
    · rename_i hrun
      cases h
      exact ⟨g, rfl, Grid.eq_collect_of_collectUntil hrun⟩
    · cases h

/-- Whatever a sampler emits are the finite samples of the grid for the range. -/
theorem Emits.exists_grid (h : s.Emits c lo hi requested points) :
    ∃ g : Grid, s.grid? lo hi requested = some g ∧
      points = (g.samplesFrom c.tree 0 g.size).filter Point.isFinite := by
  obtain ⟨g, hg, rfl⟩ : ∃ g : Grid, s.grid? lo hi requested = some g ∧
      points = g.collect c g.size 0 [] [] := by
    cases h with
    | whole h => exact exists_grid_of_sample h
    | inChunks covers h =>
      rw [s.sampleChunks_eq_sample c lo hi requested covers] at h
      exact exists_grid_of_sample h
    | unlessStopped h => exact exists_grid_of_sampleUntil h
  exact ⟨g, hg, by rw [Grid.collect_eq, List.reverse_nil, List.nil_append]⟩

/-- **Every point stands at a position** of the grid, up to the last one. -/
theorem Emits.exists_index (h : s.Emits c lo hi requested points) :
    ∀ p ∈ points, ∃ g : Grid, s.grid? lo hi requested = some g ∧
      ∃ i ≤ g.intervals.toNat, ⟨g.position i, c.tree.eval (g.position i)⟩ = p := by
  obtain ⟨g, hg, rfl⟩ := h.exists_grid
  intro p hp
  obtain ⟨i, ⟨-, hi⟩, hpoint⟩ := Grid.mem_samplesFrom_iff.mp (List.mem_filter.mp hp).1
  refine ⟨g, hg, i, ?_, hpoint⟩
  rw [Grid.size] at hi
  omega

theorem Emits.isFinite_y (h : s.Emits c lo hi requested points) :
    ∀ p ∈ points, p.y.isFinite = true := by
  obtain ⟨g, -, rfl⟩ := h.exists_grid
  exact fun p hp => (List.mem_filter.mp hp).2

theorem position_eq_lastPosition {g : Grid} (hg : s.grid? lo hi requested = some g) :
    g.position g.intervals.toNat = s.lastPosition lo hi requested := by
  have hdivides := Grid.divides_of_grid? hg
  rw [Grid.position, UInt64.ofNat_toNat, hdivides.step, hdivides.start,
    s.intervals_of_grid? lo hi requested hg]
  rfl

/-- What is not finite is the last position. -/
theorem Emits.x_eq_lastPosition (h : s.Emits c lo hi requested points) :
    ∀ p ∈ points, p.x.isFinite = false → p.x = s.lastPosition lo hi requested := by
  intro p hp hx
  obtain ⟨g, hg, i, hi, rfl⟩ := h.exists_index p hp
  rw [← position_eq_lastPosition hg]
  exact (Grid.divides_of_grid? hg).position_eq_of_not_isFinite hi le_rfl hx

theorem Emits.y_eq (h : s.Emits c lo hi requested points) :
    ∀ p ∈ points, p.y = c.tree.eval p.x := by
  intro p hp
  obtain ⟨g, -, i, -, rfl⟩ := h.exists_index p hp
  rfl

/-- If the formula has a finite value at the last position, there is a point. -/
theorem Emits.last_mem (h : s.Emits c lo hi requested points)
    (hy : (c.tree.eval (s.lastPosition lo hi requested)).isFinite = true) :
    ⟨s.lastPosition lo hi requested, c.tree.eval (s.lastPosition lo hi requested)⟩ ∈ points := by
  obtain ⟨g, hg, rfl⟩ := h.exists_grid
  refine List.mem_filter.mpr ⟨Grid.mem_samplesFrom_iff.mpr ⟨g.intervals.toNat, ?_, ?_⟩, hy⟩
  · rw [Grid.size]
    omega
  · rw [position_eq_lastPosition hg]

/-- **Every `x` is finite** just if the last position is, or has no point. -/
theorem Emits.isFinite_x_iff (h : s.Emits c lo hi requested points) :
    (∀ p ∈ points, p.x.isFinite = true) ↔
      ((s.lastPosition lo hi requested).isFinite = true ∨
        (c.tree.eval (s.lastPosition lo hi requested)).isFinite = false) := by
  constructor
  · intro hall
    by_contra hlast
    rw [not_or, Bool.not_eq_false] at hlast
    have hx := hall _ (h.last_mem hlast.2)
    exact hlast.1 hx
  · intro hlast p hp
    by_contra hx
    have heq := h.x_eq_lastPosition p hp (Bool.eq_false_iff.mpr hx)
    have hy := h.isFinite_y p hp
    rw [h.y_eq p hp] at hy
    rw [← heq] at hlast
    obtain hlast | hlast := hlast
    · exact hx hlast
    · exact absurd hy (Bool.eq_false_iff.mp hlast)

/-- Bounds of at most `2 ^ 1021` keep every `x` finite. -/
theorem Emits.isFinite_x (h : s.Emits c lo hi requested points)
    (hlo : |toReal lo| ≤ 2 ^ (1021 : ℤ)) (hhi : |toReal hi| ≤ 2 ^ (1021 : ℤ)) :
    ∀ p ∈ points, p.x.isFinite = true := by
  intro p hp
  obtain ⟨g, hg, i, hi, rfl⟩ := h.exists_index p hp
  exact (Grid.divides_of_grid? hg).isFinite_position hlo hhi hi

/-- **What is finite in the points of a run**, however it goes through its grid. Every `y` is. An `x`
that is not is the last position, so every `x` is finite if and only if the last position is, or the
formula has no finite value there. It always is for bounds of at most `2 ^ 1021`. -/
theorem emitted_points_finite_iff (h : s.Emits c lo hi requested points) :
    (∀ p ∈ points, p.y.isFinite = true) ∧
    (∀ p ∈ points, p.x.isFinite = false → p.x = s.lastPosition lo hi requested) ∧
    ((∀ p ∈ points, p.x.isFinite = true) ↔
      ((s.lastPosition lo hi requested).isFinite = true ∨
        (c.tree.eval (s.lastPosition lo hi requested)).isFinite = false)) ∧
    (|toReal lo| ≤ 2 ^ (1021 : ℤ) → |toReal hi| ≤ 2 ^ (1021 : ℤ) →
      ∀ p ∈ points, p.x.isFinite = true) :=
  ⟨h.isFinite_y, h.x_eq_lastPosition, h.isFinite_x_iff, h.isFinite_x⟩

/-- A formula that is a number everywhere, over the unit interval. -/
theorem emitted_points_finite_unit :
    ∃ c points, Curve.ofSource "e" = .ok c ∧ standard.Emits c 0 1 3 points ∧
      ∀ p ∈ points, p.x.isFinite = true ∧ p.y.isFinite = true := by
  have parsed : Expr.parse "e" = .ok (.named .e) := by decide +kernel
  have width : (1 - 0 : Float).isFinite = true := by decide +kernel
  have last : (standard.lastPosition 0 1 3).isFinite = true := by decide +kernel
  obtain ⟨c, hc, -⟩ := Curve.exists_ofSource parsed
  obtain ⟨g, -, hvalue, -⟩ := standard.sample_of_isFinite c 3 width
  obtain ⟨hy, -, hx, -⟩ := emitted_points_finite_iff (Emits.whole hvalue)
  exact ⟨c, _, hc, .whole hvalue, fun p hp => ⟨hx.mpr (.inl last) p hp, hy p hp⟩⟩

/-- **An infinite `x`.** Between `13 * 2 ^ 971` and the largest double the width is finite, but the
last of 2000 intervals ends at infinity, where a constant formula has a value. -/
theorem exists_infinite_x :
    ∃ c points, Curve.ofSource "e" = .ok c ∧
      standard.Emits c (.ofBits 0x7CDA000000000000) (.ofBits 0x7FEFFFFFFFFFFFFF) 2000 points ∧
      ∃ p ∈ points, p.y.isFinite = true ∧ p.x.isFinite = false := by
  have parsed : Expr.parse "e" = .ok (.named .e) := by decide +kernel
  have width : (Float.ofBits 0x7FEFFFFFFFFFFFFF - .ofBits 0x7CDA000000000000).isFinite = true := by
    decide +kernel
  have last : (standard.lastPosition (.ofBits 0x7CDA000000000000) (.ofBits 0x7FEFFFFFFFFFFFFF)
      2000).isFinite = false := by decide +kernel
  have value : ((Expr.named .e).eval (standard.lastPosition (.ofBits 0x7CDA000000000000)
      (.ofBits 0x7FEFFFFFFFFFFFFF) 2000)).isFinite = true := by decide +kernel
  obtain ⟨c, hc, htree⟩ := Curve.exists_ofSource parsed
  obtain ⟨g, -, hvalue, -⟩ := standard.sample_of_isFinite c 2000 width
  have emits := Emits.whole hvalue
  rw [← htree] at value
  exact ⟨c, _, hc, emits, _, emits.last_mem value, value, last⟩

end Sampler

end CurvePlot
