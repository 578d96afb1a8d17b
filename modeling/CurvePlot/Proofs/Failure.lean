/-!
# Computations that may fail

The reader of formulas and the reader of arguments stop at the first thing that is wrong. What is
known of two computations is known of one after the other: it gives a value just if both do, and it
**fails only** for causes of some kind if both do.

An operation may also have a **domain** outside of which it gives nothing, as the difference of two
counts does that is no count.
-/

namespace CurvePlot

variable {ε α β : Type}

@[simp] theorem ok_bind (a : α) (f : α → Except ε β) : (Except.ok a >>= f) = f a := rfl

@[simp] theorem error_bind (e : ε) (f : α → Except ε β) :
    ((Except.error e : Except ε α) >>= f) = .error e := rfl

theorem eq_ok_of_bind {r : Except ε α} {f : α → Except ε β} {b : β} (h : r >>= f = .ok b) :
    ∃ a, r = .ok a ∧ f a = .ok b := by
  rcases r with e | a
  · cases h
  · exact ⟨a, rfl, h⟩

theorem eq_ok_of_map {r : Except ε α} {f : α → β} {b : β} (h : f <$> r = .ok b) :
    ∃ a, r = .ok a ∧ f a = b := by
  rcases r with e | a
  · cases h
  · exact ⟨a, rfl, Except.ok.inj h⟩

/-- Every cause that a computation fails for satisfies `P`. -/
def FailsOnly (P : ε → Prop) (r : Except ε α) : Prop :=
  ∀ cause, r = .error cause → P cause

namespace FailsOnly

variable {P : ε → Prop} {r : Except ε α}

theorem ok (a : α) : FailsOnly P (.ok a) := by
  intro cause h
  cases h

theorem error {cause : ε} (h : P cause) : FailsOnly P (.error cause : Except ε α) := by
  rintro _ ⟨⟩
  exact h

/-- The second computation may rely on what the first one gave. -/
theorem bind_of_ok {f : α → Except ε β} (h : FailsOnly P r)
    (hf : ∀ a, r = .ok a → FailsOnly P (f a)) : FailsOnly P (r >>= f) := by
  rcases r with cause | a
  · exact error (h cause rfl)
  · exact hf a rfl

theorem bind {f : α → Except ε β} (h : FailsOnly P r) (hf : ∀ a, FailsOnly P (f a)) :
    FailsOnly P (r >>= f) :=
  h.bind_of_ok fun a _ => hf a

theorem mono {Q : ε → Prop} (h : FailsOnly P r) (hPQ : ∀ cause, P cause → Q cause) :
    FailsOnly Q r :=
  fun cause hr => hPQ cause (h cause hr)

/-- What fails for one cause only. -/
theorem of_eq {cause : ε} (h : FailsOnly (· = cause) r) (hP : P cause) : FailsOnly P r := by
  refine h.mono ?_
  rintro _ rfl
  exact hP

theorem map {f : α → β} (h : FailsOnly P r) : FailsOnly P (f <$> r) := by
  rcases r with cause | a
  · exact error (h cause rfl)
  · exact ok (f a)

end FailsOnly

/-- The **difference** of two counts, if it is a count. -/
def difference? (a b : Nat) : Option Nat :=
  if b ≤ a then some (a - b) else none

theorem difference?_of_le {a b : Nat} (h : b ≤ a) : difference? a b = some (a - b) :=
  if_pos h

end CurvePlot
