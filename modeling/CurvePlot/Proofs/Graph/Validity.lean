import CurvePlot.Graph.Service
import CurvePlot.Proofs.Binary64.Arithmetic
import CurvePlot.Proofs.Expr.Causes
import CurvePlot.Proofs.Sampler.Agreement

/-!
# Valid requests

A request is looked at twice: it is validated before it becomes a task, and the sampler looks at the
task again. `Request.faults` lists everything that is wrong with a request, each fault told apart
from the others, and a refused request is told the first of them. The two looks agree
(`Graph.validation_agrees_with_sampling`): what has been validated is never refused for its range or
as empty, and the range that validation refuses is the range that the sampler would have refused, in
the same words.
-/

namespace CurvePlot

namespace Graph

namespace Request

/-- A request is **valid** if all is well that can be told without compiling its function. -/
structure IsValid (r : Request) : Prop where
  /-- There is something in the function that is not white space. -/
  named : ∃ c ∈ r.function.toList, Text.isWhiteSpace c = false
  isFinite_minX : r.minX.isFinite = true
  isFinite_maxX : r.maxX.isFinite = true
  isFinite_width : (r.maxX - r.minX).isFinite = true
  one_le_points : 1 ≤ r.points.toInt

/-- **Everything that is wrong** with a request, in the order in which it is reported. -/
def faults (r : Request) : List RequestError :=
  (if ∃ c ∈ r.function.toList, Text.isWhiteSpace c = false then [] else [.missingFunction]) ++
    (if r.minX.isFinite ∧ r.maxX.isFinite ∧ (r.maxX - r.minX).isFinite then []
      else [.invalidRange r.minX r.maxX]) ++
    (if 1 ≤ r.points.toInt then [] else [.invalidPointCount r.points]) ++
    match Curve.ofSource r.function with
    | .ok _ => []
    | .error cause => [.notAFormula cause]

/-- The task of a request that nobody has validated. -/
def unchecked (r : Request) : Sampler.Task :=
  ⟨r.function, r.minX, r.maxX, r.points.toUInt64⟩

variable {r : Request}

/-! ### Validation -/

theorem isBlank_eq_false_iff {source : String} :
    Text.isBlank source = false ↔ ∃ c ∈ source.toList, Text.isWhiteSpace c = false := by
  simp [Text.isBlank]

theorem points_lt_one_iff : r.points < 1 ↔ ¬ 1 ≤ r.points.toInt := by
  rw [Int64.lt_iff_toInt_lt, not_le]
  rfl

theorem validate_of_not_named (unnamed : ¬ ∃ c ∈ r.function.toList, Text.isWhiteSpace c = false) :
    r.validate = .error .missingFunction := by
  rw [← isBlank_eq_false_iff, Bool.not_eq_false] at unnamed
  rw [validate, unnamed]
  rfl

/-- What `validate` does with a request whose function is not blank. -/
theorem validate_of_named (named : ∃ c ∈ r.function.toList, Text.isWhiteSpace c = false) :
    r.validate =
      if r.minX.isFinite ∧ r.maxX.isFinite ∧ (r.maxX - r.minX).isFinite then
        if 1 ≤ r.points.toInt then .ok () else .error (.invalidPointCount r.points)
      else .error (.invalidRange r.minX r.maxX) := by
  have hblank : Text.isBlank r.function = false := isBlank_eq_false_iff.mpr named
  rw [validate, hblank]
  simp only [points_lt_one_iff]
  split_ifs <;> simp_all

theorem validate_eq_ok_iff : r.validate = .ok () ↔ r.IsValid := by
  by_cases named : ∃ c ∈ r.function.toList, Text.isWhiteSpace c = false
  · rw [validate_of_named named]
    constructor
    · intro h
      split_ifs at h with hrange hpoints
      exact ⟨named, hrange.1, hrange.2.1, hrange.2.2, hpoints⟩
    · intro h
      rw [if_pos ⟨h.isFinite_minX, h.isFinite_maxX, h.isFinite_width⟩, if_pos h.one_le_points]
  · rw [validate_of_not_named named]
    exact iff_of_false (by simp) fun h => named h.named

/-- **The first fault** is what validation finds, or else that the function is no formula. -/
theorem head?_faults :
    r.faults.head? =
      match r.validate, Curve.ofSource r.function with
      | .error cause, _ => some cause
      | .ok (), .error cause => some (.notAFormula cause)
      | .ok (), .ok _ => none := by
  by_cases named : ∃ c ∈ r.function.toList, Text.isWhiteSpace c = false
  · rw [validate_of_named named, faults, if_pos named]
    split_ifs
    · cases Curve.ofSource r.function <;> rfl
    · rfl
    · rfl
    · rfl
  · rw [faults, if_neg named, validate_of_not_named named]
    rfl

/-- A positive number of points loses nothing on its way to the sampler. -/
theorem toNat_toUInt64_of_one_le {n : Int64} (h : 1 ≤ n.toInt) :
    (n.toUInt64.toNat : Int) = n.toInt := by
  have hbits : n.toUInt64.toNat = n.toBitVec.toNat := rfl
  have hlt := n.toBitVec.isLt
  rw [← Int64.toInt_toBitVec, BitVec.toInt_eq_toNat_cond] at h ⊢
  rw [hbits]
  split at h
  · rename_i hhalf
    rw [if_pos hhalf]
  · omega

/-- Nothing is wrong with a request just if it is valid and its function is a formula. -/
theorem faults_eq_nil_iff :
    r.faults = [] ↔ r.IsValid ∧ ∃ c, Curve.ofSource r.function = .ok c := by
  rw [← List.head?_eq_none_iff, head?_faults, ← validate_eq_ok_iff]
  rcases r.validate with cause | ⟨⟩
  · simp
  · rcases Curve.ofSource r.function with cause | c
    · simp
    · simp

theorem task_of_isValid (h : r.IsValid) : r.task = .ok r.unchecked := by
  rw [task, validate_eq_ok_iff.mpr h]
  rfl

theorem isValid_of_task {task : Sampler.Task} (h : r.task = .ok task) :
    r.IsValid ∧ task = r.unchecked := by
  rcases hvalidate : r.validate with cause | ⟨⟩
  · rw [Request.task, hvalidate] at h
    cases h
  · have hvalid := validate_eq_ok_iff.mp hvalidate
    rw [task_of_isValid hvalid] at h
    exact ⟨hvalid, (Except.ok.inj h).symm⟩

/-- A valid request is not empty, so if its function is no formula the cause is another one. -/
theorem IsValid.parse_ne_error_empty (h : r.IsValid) :
    Expr.parse r.function ≠ .error .empty := by
  intro hempty
  obtain ⟨c, hc, hblack⟩ := h.named
  have hseparator := Expr.parse_eq_error_empty_iff.mp hempty c hc
  rw [Text.isWhiteSpace_of_isSeparator hseparator] at hblack
  cases hblack

end Request

/-! ### The sampler's own checks -/

open Request

/-- The sampler tests one number where validation tests three, and **refuses the same ranges**. -/
theorem not_finite_range_iff {lo hi : Float} :
    ¬ (lo.isFinite ∧ hi.isFinite ∧ (hi - lo).isFinite) ↔ (hi - lo).isFinite = false := by
  rw [← Bool.not_eq_true, not_iff_not]
  constructor
  · intro hfinite
    exact hfinite.2.2
  · intro hwidth
    obtain ⟨hhi, hlo⟩ := Binary64.isFinite_of_isFinite_sub hwidth
    exact ⟨hlo, hhi, hwidth⟩

variable {s : Sampler} {r : Request}

/-- What a sampler gives for a valid request whose function is a formula: points. -/
theorem exists_points (h : r.IsValid) {c : Curve} (hc : Curve.ofSource r.function = .ok c) :
    ∃ points, (s.sample c r.minX r.maxX r.points.toUInt64).value = .ok points ∧
      (s.perform r.unchecked).value = .ok points := by
  obtain ⟨g, -, hvalue, -⟩ := s.sample_of_isFinite c r.points.toUInt64 h.isFinite_width
  refine ⟨_, hvalue, ?_⟩
  rw [s.value_perform_eq, unchecked, hc]
  exact hvalue

/-- **A response** is a failure with the first fault, or else what the sampler gives for the request
as it is. -/
theorem value_answerWith (s : Sampler) (r : Request) :
    (answerWith s r).value =
      match r.faults.head? with
      | some cause => .failure cause.message
      | none => .ofResult (s.perform r.unchecked).value := by
  rw [head?_faults]
  rcases hvalidate : r.validate with cause | ⟨⟩
  · have htask : r.task = .error cause := by
      rw [Request.task, hvalidate]
      rfl
    rw [answerWith, htask]
    rfl
  · have hresponse : (answerWith s r).value = .ofResult (s.perform r.unchecked).value := by
      rw [answerWith, task_of_isValid (validate_eq_ok_iff.mp hvalidate)]
      rfl
    rw [hresponse]
    rcases hc : Curve.ofSource r.function with cause | c
    · rw [s.value_perform_eq, unchecked, hc]
      rfl
    · rfl

theorem value_answerWith_of_formula (h : r.IsValid) {c : Curve}
    (hc : Curve.ofSource r.function = .ok c) :
    (answerWith s r).value = .ofResult (s.perform r.unchecked).value := by
  rw [value_answerWith, faults_eq_nil_iff.mpr ⟨h, c, hc⟩]
  rfl

theorem success_answerWith_iff : (answerWith s r).value.success = true ↔ r.faults = [] := by
  rw [value_answerWith]
  rcases hfaults : r.faults with _ | ⟨cause, later⟩
  · obtain ⟨hvalid, c, hc⟩ := faults_eq_nil_iff.mp hfaults
    obtain ⟨points, -, hpoints⟩ := exists_points (s := s) hvalid hc
    rw [List.head?_nil, hpoints]
    exact iff_of_true rfl rfl
  · simp [Response.failure]

/-- Validation does not stand between a request and the sampler: if the function is a formula and
some point is asked for, the sampler left to itself gives the same response. -/
theorem value_answerWith_eq_unchecked (named : ∃ c ∈ r.function.toList, Text.isWhiteSpace c = false)
    (hpoints : 1 ≤ r.points.toInt) {c : Curve} (hc : Curve.ofSource r.function = .ok c) :
    (answerWith s r).value = .ofResult (s.perform r.unchecked).value := by
  by_cases hrange : r.minX.isFinite ∧ r.maxX.isFinite ∧ (r.maxX - r.minX).isFinite
  · exact value_answerWith_of_formula ⟨named, hrange.1, hrange.2.1, hrange.2.2, hpoints⟩ hc
  · have hsample := s.value_sample_of_not_isFinite c r.points.toUInt64
      (not_finite_range_iff.mp hrange)
    have hperform := (s.value_perform hc r.minX r.maxX r.points.toUInt64).trans hsample
    rw [value_answerWith, faults, if_pos named, if_neg hrange, unchecked, hperform]
    rfl

/-- **Validation agrees with sampling.** A response is a success just if the request is valid and its
function is a formula, and if not it is a failure with the first fault. A success has the points that
the sampler gives for the formula, over the same range and with the same number of points. What has
been validated is neither refused for its range nor as empty. Validation refuses the ranges that have
no grid, in the words of the sampler, so a request for at least one point of a formula gets the
response it would get without validation. -/
theorem validation_agrees_with_sampling (s : Sampler) (r : Request) :
    ((answerWith s r).value.success = true ↔
      r.IsValid ∧ ∃ c, Curve.ofSource r.function = .ok c) ∧
    ((answerWith s r).value.success = false → ∃ cause, r.faults.head? = some cause ∧
      (answerWith s r).value = .failure cause.message) ∧
    (r.IsValid → ∀ c, Curve.ofSource r.function = .ok c →
      (r.points.toUInt64.toNat : Int) = r.points.toInt ∧
      ∃ points, (s.sample c r.minX r.maxX r.points.toUInt64).value = .ok points ∧
        (answerWith s r).value = ⟨points, true, none⟩) ∧
    (∀ task, r.task = .ok task → Expr.parse task.expression ≠ .error .empty ∧
      (s.perform task).value ≠ .error (.notAFormula .empty) ∧
      ∀ lo hi, (s.perform task).value ≠ .error (.invalidRange lo hi)) ∧
    ((∃ c ∈ r.function.toList, Text.isWhiteSpace c = false) →
      (∀ requested, r.validate = .error (.invalidRange r.minX r.maxX) ↔
        s.grid? r.minX r.maxX requested = none) ∧
      RequestError.message (.invalidRange r.minX r.maxX) =
        SamplingError.message (.invalidRange r.minX r.maxX) ∧
      ∀ c, Curve.ofSource r.function = .ok c → 1 ≤ r.points.toInt →
        (answerWith s r).value = .ofResult (s.perform r.unchecked).value) := by
  refine ⟨?_, ?_, ?_, ?_, ?_⟩
  · rw [success_answerWith_iff, faults_eq_nil_iff]
  · intro hfailure
    rcases hfaults : r.faults with _ | ⟨cause, later⟩
    · rw [success_answerWith_iff.mpr hfaults] at hfailure
      cases hfailure
    · refine ⟨cause, rfl, ?_⟩
      rw [value_answerWith, hfaults]
      rfl
  · intro hvalid c hc
    obtain ⟨points, hsample, hperform⟩ := exists_points (s := s) hvalid hc
    refine ⟨toNat_toUInt64_of_one_le hvalid.one_le_points, points, hsample, ?_⟩
    rw [value_answerWith_of_formula hvalid hc, hperform]
    rfl
  · intro task htask
    obtain ⟨hvalid, rfl⟩ := isValid_of_task htask
    have hempty := hvalid.parse_ne_error_empty
    rcases hc : Curve.ofSource r.function with cause | c
    · have hperform : (s.perform r.unchecked).value = .error (.notAFormula cause) := by
        rw [s.value_perform_eq, unchecked, hc]
      refine ⟨hempty, ?_, ?_⟩
      · rw [hperform]
        rintro ⟨⟩
        exact hempty (Curve.ofSource_eq_error_iff.mp hc)
      · simp [hperform]
    · obtain ⟨points, -, hperform⟩ := exists_points (s := s) hvalid hc
      exact ⟨hempty, by simp [hperform], by simp [hperform]⟩
  · intro named
    refine ⟨?_, rfl, ?_⟩
    · intro requested
      rw [s.grid?_eq_none_iff, ← not_finite_range_iff, validate_of_named named]
      split_ifs <;> simp_all
    · intro c hc hpoints
      exact value_answerWith_eq_unchecked named hpoints hc

end Graph

end CurvePlot
