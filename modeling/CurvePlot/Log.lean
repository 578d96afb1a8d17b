/-!
# Records of what was done

Compiling and sampling leave records behind for whoever runs the program. A `Logged` value
is a value together with the records made on the way, oldest first.
-/

namespace CurvePlot

namespace Log

/-- How much a record matters. -/
inductive Level where
  | debug
  | info
  | warn
deriving Repr, DecidableEq

/-- The name of a level. -/
def Level.name : Level → String
  | debug => "DEBUG"
  | info => "INFO"
  | warn => "WARN"

/-- One record. -/
structure Record where
  level : Level
  message : String
deriving Repr, DecidableEq

end Log

/-- A value and the records made on the way to it, oldest first. -/
structure Logged (α : Type) where
  value : α
  records : List Log.Record

namespace Logged

/-- A value without any record. -/
protected def pure {α : Type} (a : α) : Logged α :=
  ⟨a, []⟩

/-- Go on from a value, keeping the records of both parts in order. -/
protected def bind {α β : Type} (m : Logged α) (f : α → Logged β) : Logged β :=
  let next := f m.value
  ⟨next.value, m.records ++ next.records⟩

instance : Monad Logged where
  pure := Logged.pure
  bind := Logged.bind

/-- Leave a record. -/
def note (level : Log.Level) (message : String) : Logged Unit :=
  ⟨(), [⟨level, message⟩]⟩

@[simp] theorem value_pure {α : Type} (a : α) : (pure a : Logged α).value = a := rfl

@[simp] theorem records_pure {α : Type} (a : α) : (pure a : Logged α).records = [] := rfl

@[simp] theorem value_bind {α β : Type} (m : Logged α) (f : α → Logged β) :
    (m >>= f).value = (f m.value).value := rfl

@[simp] theorem records_bind {α β : Type} (m : Logged α) (f : α → Logged β) :
    (m >>= f).records = m.records ++ (f m.value).records := rfl

end Logged

end CurvePlot
