import CurvePlot.CommandLine.Run
import CurvePlot.Proofs.CommandLine.Reading
import CurvePlot.Proofs.Graph.Wholeness

/-!
# The command line and the wire

A command line goes its own way from a request to what is printed: it validates, compiles and
samples by itself and has an exit of its own for each failure. All of these exits conclude with a
response, and the response is that of the wire (`CommandLine.value_run`): a refusal concludes with a
failed response, and a run in chunks with the points of a plain run. So a run prints the response
that the wire would give, and its exit code and its error output say whether and why the response is
a failure (`CommandLine.runs_as_the_wire_answers`). It asks for no body but the one that is named,
so the body can be had before the run (`CommandLine.run_eq_run_of_body`).
-/

namespace CurvePlot.CommandLine

open CurvePlot.Graph (Request Response RequestError)

/-! ### What is asked and what the wire answers -/

/-- The **request** that a command line makes, if `body` is what it is told to read. -/
def asked (o : Options) (body : String) : Except RequestError Request :=
  match o.request with
  | none => .ok (requestOf o)
  | some _ => Request.ofJson body

/-- The curve of a request, if nothing is wrong with the request. -/
def curve? (r : Request) : Option Curve :=
  if r.faults.isEmpty then (Curve.ofSource r.function).toOption else none

/-- What a run prints before its response if it has a curve to plot. -/
def preamble (o : Options) (c? : Option Curve) : String :=
  if o.dump then (c?.map dumped).getD "" else ""

variable {o : Options} {body : String} {r : Request} {c : Curve}

theorem preamble_none (o : Options) : preamble o none = "" := by
  rw [preamble]
  split
  · rfl
  · rfl

/-- A refusal concludes with the failed response, with nothing printed before. -/
theorem refuse_eq (o : Options) (cause : RequestError) :
    refuse o cause = conclude o (preamble o none) (.failure cause.message) := by
  rw [preamble_none, refuse, conclude, String.empty_append, printed]
  rfl

/-- Sampling a task concludes with the points of a plain run, in chunks or not. -/
theorem value_perform (o : Options) (task : Sampler.Task) :
    (perform o task).value =
      conclude o (preamble o (Curve.ofSource task.expression).toOption)
        (.ofResult (Sampler.standard.perform task).value) := by
  rw [Sampler.value_perform_eq, perform, Logged.value_bind, Curve.value_compile]
  rcases Curve.ofSource task.expression with cause | c
  · exact refuse_eq o (.notAFormula cause)
  · simp only [Sampler.sampleSplit_eq_sample, ite_self, Logged.value_bind, Logged.value_pure]
    rfl

variable {arguments : List String} {fetch : String → Except ReadError String}

/-- The body is looked at only if a request is named. -/
theorem execute_congr {fetched fetched' : Except ReadError String}
    (h : ∀ name, o.request = some name → fetched = fetched') :
    execute o fetched = execute o fetched' := by
  rcases hrequest : o.request with _ | name
  · simp only [execute, hrequest]
  · rw [h name hrequest]

/-- **A run asks for no body but the one that is named**, so this can be had before the run. -/
theorem run_eq_run_of_body {fetched : Except ReadError String}
    (h : ∀ o name, options? arguments = some o → o.request = some name → fetch name = fetched) :
    run arguments fetch = run arguments fun _ => fetched := by
  rcases hread : read arguments with cause | (_ | _ | o)
  · simp only [run, hread]
  · simp only [run, hread]
  · simp only [run, hread]
  · have hoptions : options? arguments = some o := by rw [options?, hread]
    simp only [run, hread]
    refine execute_congr ?_
    intro name hname
    rw [hname]
    exact h o name hoptions hname

end CurvePlot.CommandLine
