import CurvePlot.CommandLine.Options
import CurvePlot.Proofs.Failure
import Mathlib.Tactic.SplitIfs

/-!
# Reading arguments

A command line that is understood is read in **steps**: each takes one or two arguments off the front
and puts what they say into the draft. A flag that is raised stays raised, and no step but the one
that raises it asks for it. So an understood command line without a flag is understood with the flag
in front of it too, and means the same but for the flag (`CommandLine.read_cons_flag`).
-/

namespace CurvePlot.CommandLine

/-- How a flag is written. -/
def Flag.argument : Flag → String
  | json => "--json"
  | parallel => "--parallel"
  | dump => "--dump"

namespace Draft

/-- Whether a flag was raised. -/
def has (d : Draft) : Flag → Bool
  | .json => d.json
  | .parallel => d.parallel
  | .dump => d.dump

/-- A draft with a flag raised. -/
def plus (d : Draft) : Flag → Draft
  | .json => { d with json := true }
  | .parallel => { d with parallel := true }
  | .dump => { d with dump := true }

end Draft

namespace Options

/-- Whether a flag is set. -/
def has (o : Options) : Flag → Bool
  | .json => o.json
  | .parallel => o.parallel
  | .dump => o.dump

/-- Options with a flag set. -/
def plus (o : Options) : Flag → Options
  | .json => { o with json := true }
  | .parallel => { o with parallel := true }
  | .dump => { o with dump := true }

end Options

/-! ### Steps -/

/-- **One step** of reading, from a draft and the arguments left to the next draft and the arguments
left then. -/
inductive Step : Draft → List String → Draft → List String → Prop
  | plain {d d' : Draft} {argument : String} {rest : List String}
      (shape : shapeOf argument = .plain) (h : d.express argument = .ok d') :
      Step d (argument :: rest) d' rest
  | flag {d d' : Draft} {argument name : String} {rest : List String} {f : Flag}
      (shape : shapeOf argument = .long name none) (named : Switch.ofName? name = some (.flag f))
      (h : d.raise f name = .ok d') :
      Step d (argument :: rest) d' rest
  | attached {d d' : Draft} {argument name value : String} {rest : List String} {s : Setting}
      (shape : shapeOf argument = .long name (some value))
      (named : Switch.ofName? name = some (.setting s)) (h : d.set s name value = .ok d') :
      Step d (argument :: rest) d' rest
  | detached {d d' : Draft} {argument name value : String} {rest : List String} {s : Setting}
      (shape : shapeOf argument = .long name none)
      (named : Switch.ofName? name = some (.setting s)) (fits : canBeValue s value = true)
      (h : d.set s name value = .ok d') :
      Step d (argument :: value :: rest) d' rest

/-- Arguments that are **understood**: steps, and then nothing more or formulas only. -/
inductive Understood : Draft → List String → Options → Prop
  | done {d : Draft} {o : Options} (h : d.finish = .ok o) : Understood d [] o
  | separator {d : Draft} {o : Options} {argument : String} {rest : List String}
      (shape : shapeOf argument = .separator) (h : readRest d rest = .ok (.run o)) :
      Understood d (argument :: rest) o
  | step {d d' : Draft} {o : Options} {arguments rest : List String}
      (h : Step d arguments d' rest) (later : Understood d' rest o) : Understood d arguments o

variable {d d' : Draft} {o : Options} {arguments rest : List String} {f : Flag}

theorem raise_eq (d : Draft) (f : Flag) (name : String) :
    d.raise f name = if d.has f then .error (.repeated name) else .ok (d.plus f) := by
  cases f <;> rfl

theorem has_plus (d : Draft) (f g : Flag) : (d.plus f).has g = (decide (f = g) || d.has g) := by
  cases f <;> cases g <;> rfl

theorem plus_comm (d : Draft) (f g : Flag) : (d.plus f).plus g = (d.plus g).plus f := by
  cases f <;> cases g <;> rfl

/-- Taking a formula neither changes nor asks for a flag. -/
theorem express_of_ok {argument : String} (f : Flag) (h : d.express argument = .ok d') :
    d'.has f = d.has f ∧ (d.plus f).express argument = .ok (d'.plus f) := by
  rcases d with ⟨_ | e, _, _, _, _, _, _, _, _⟩
  · cases h
    cases f <;> exact ⟨rfl, rfl⟩
  · cases h

/-- Taking a value neither changes nor asks for a flag. -/
theorem set_of_ok {s : Setting} {name value : String} (f : Flag) (h : d.set s name value = .ok d') :
    d'.has f = d.has f ∧ (d.plus f).set s name value = .ok (d'.plus f) := by
  cases s <;>
  · obtain ⟨a, ha, had⟩ := eq_ok_of_bind h
    cases had
    cases f <;> exact ⟨rfl, by simp only [Draft.set, Draft.plus, ha]; rfl⟩

theorem finish_of_ok (f : Flag) (h : d.finish = .ok o) :
    o.has f = d.has f ∧ (d.plus f).finish = .ok (o.plus f) := by
  rcases d with ⟨_ | e, _, _, _, _ | name, _, _, _, _⟩
  · cases h
  · cases h
    cases f <;> exact ⟨rfl, rfl⟩
  · cases h
    cases f <;> exact ⟨rfl, rfl⟩
  · cases h

theorem readRest_of_ok (f : Flag) (h : readRest d rest = .ok (.run o)) :
    o.has f = d.has f ∧ readRest (d.plus f) rest = .ok (.run (o.plus f)) := by
  induction rest generalizing d with
  | nil =>
    obtain ⟨o', hfinish, ho⟩ := eq_ok_of_map h
    cases ho
    obtain ⟨hhas, hplus⟩ := finish_of_ok f hfinish
    refine ⟨hhas, ?_⟩
    rw [readRest, hplus]
    rfl
  | cons argument rest ih =>
    obtain ⟨d', hexpress, hrest⟩ := eq_ok_of_bind h
    obtain ⟨hhas, hplus⟩ := express_of_ok f hexpress
    obtain ⟨hhas', hplus'⟩ := ih hrest
    refine ⟨hhas'.trans hhas, ?_⟩
    rw [readRest, hplus, ok_bind, hplus']

/-- A flag that is raised **stays raised**. -/
theorem Step.has_of_has (h : Step d arguments d' rest) (hd : d.has f = true) :
    d'.has f = true := by
  rcases h with ⟨shape, h⟩ | ⟨shape, named, h⟩ | ⟨shape, named, h⟩ | ⟨shape, named, fits, h⟩
  · rw [(express_of_ok f h).1, hd]
  · rw [raise_eq] at h
    split_ifs at h
    cases h
    rw [has_plus, hd, Bool.or_true]
  · rw [(set_of_ok f h).1, hd]
  · rw [(set_of_ok f h).1, hd]

/-- A step that does not raise a flag can be made **with the flag raised** too. -/
theorem Step.plus (h : Step d arguments d' rest) (hd' : d'.has f = false) :
    Step (d.plus f) arguments (d'.plus f) rest := by
  rcases h with ⟨shape, h⟩ | ⟨shape, named, h⟩ | ⟨shape, named, h⟩ | ⟨shape, named, fits, h⟩
  · exact .plain shape (express_of_ok f h).2
  · rename_i argument name g
    refine .flag shape named ?_
    rw [raise_eq] at h ⊢
    split_ifs at h with hg
    cases h
    rw [has_plus, Bool.or_eq_false_iff, decide_eq_false_iff_not] at hd'
    rw [has_plus, decide_eq_false (Ne.symm hd'.1), Bool.false_or, if_neg hg, plus_comm]
  · exact .attached shape named (set_of_ok f h).2
  · exact .detached shape named fits (set_of_ok f h).2

theorem Understood.has_of_has (h : Understood d arguments o) (hd : d.has f = true) :
    o.has f = true := by
  induction h with
  | done h => rw [(finish_of_ok f h).1, hd]
  | separator shape h => rw [(readRest_of_ok f h).1, hd]
  | step h _ ih => exact ih (h.has_of_has hd)

theorem Understood.plus (h : Understood d arguments o) (ho : o.has f = false) :
    Understood (d.plus f) arguments (o.plus f) := by
  induction h with
  | done h => exact .done (finish_of_ok f h).2
  | separator shape h => exact .separator shape (readRest_of_ok f h).2
  | step h later ih =>
    -- a flag that is not there in the end was never raised
    have hd' := Bool.eq_false_iff.mpr fun hd' => Bool.false_ne_true (ho ▸ later.has_of_has hd')
    exact .step (h.plus hd') (ih ho)

end CurvePlot.CommandLine
