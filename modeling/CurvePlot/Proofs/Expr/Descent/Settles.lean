import CurvePlot.Proofs.Expr.Descent.Rules
import CurvePlot.Proofs.Expr.Outcome

/-!
# What a rule settles

A rule does what the reader does from the state that the rule is called in to the end of its phrase:
it ends with an error just if the reader does, with the same one, and otherwise the reader goes on as
if the tree of the phrase had been given to it at once (`Settles`). One rule after the other settles
what both do, and a rule that counts leaves the count as it was.

A phrase ends where the next token does not go on with it. There the reader closes what the phrase
is the last part of, so a power, a product or a sum around it is finished at the same place.
-/

namespace CurvePlot

namespace Expr

open Token (Kind)

variable {limits : Limits} {α β : Type}

namespace Descent

open Rule (fail)

/-! ### The reader from a state on -/

/-- What the reader makes of the tokens ahead, from a state on. -/
def conclude (limits : Limits) (s : State) (ts : List Token) : Except ParseError Expr :=
  s.run limits ts >>= State.finish limits

/-- The same where an operand must come, if the level of the operand is still to be checked. -/
def enter (limits : Limits) (frames : List Frame) (ts : List Token) : Except ParseError Expr :=
  if level frames ≤ limits.nesting then
    conclude limits (.operand frames) ts
  else
    .error (.tooDeep limits.nesting)

theorem conclude_nil (s : State) : conclude limits s [] = s.finish limits := rfl

theorem conclude_cons (s : State) (t : Token) (ts : List Token) :
    conclude limits s (t :: ts) = s.step limits t >>= fun s' => conclude limits s' ts := by
  rw [conclude, State.run_cons, bind_assoc]
  rfl

theorem conclude_cons_of_step {s s' : State} {t : Token} (h : s.step limits t = .ok s')
    (ts : List Token) : conclude limits s (t :: ts) = conclude limits s' ts := by
  rw [conclude_cons, h]
  rfl

theorem conclude_cons_of_error {s : State} {t : Token} {cause : ParseError}
    (h : s.step limits t = .error cause) (ts : List Token) :
    conclude limits s (t :: ts) = .error cause := by
  rw [conclude_cons, h]
  rfl

/-- Going one level deeper is what is still to be checked. -/
theorem conclude_cons_of_nest {s : State} {t : Token} {frame : Frame} {frames : List Frame}
    (h : s.step limits t = State.operand <$> nest limits frame frames) (ts : List Token) :
    conclude limits s (t :: ts) = enter limits (frame :: frames) ts := by
  rw [conclude_cons, h, nest, enter]
  split <;> rfl

theorem enter_of_le {frames : List Frame} (h : level frames ≤ limits.nesting) (ts : List Token) :
    enter limits frames ts = conclude limits (.operand frames) ts :=
  if_pos h

/-! ### What a rule settles -/

/-- A rule **settles** what the reader makes of the tokens ahead: it ends with the error that the
reader ends with, or with a value after which the tokens are such that the reader goes on in the same
way. The numbers of the cursor are what they were, except that parentheses may be left open by an
error. -/
inductive Settles (whole : Except ParseError Expr) (depth opened : Nat)
    (goesOn : α → List Token → Prop) : Option (Except ParseError α × Cursor) → Prop
  | value {a : α} {ts : List Token} (h : goesOn a ts) :
    Settles whole depth opened goesOn (some (.ok a, ⟨ts, depth, opened⟩))
  | error {cause : ParseError} {ts : List Token} {opened' : Nat} (h : whole = .error cause) :
    Settles whole depth opened goesOn (some (.error cause, ⟨ts, depth, opened'⟩))

section Settles

variable {whole : Except ParseError Expr} {depth opened opened' : Nat}
  {goesOn : α → List Token → Prop} {goesOn' : β → List Token → Prop}

theorem Settles.mono {goesOn' : α → List Token → Prop} {r : Option (Except ParseError α × Cursor)}
    (h : Settles whole depth opened goesOn r) (hpost : ∀ a ts, goesOn a ts → goesOn' a ts) :
    Settles whole depth opened goesOn' r := by
  cases h with
  | value h => exact .value (hpost _ _ h)
  | error h => exact .error h

/-- One rule after the other. -/
theorem Settles.bind {rule : Rule α} {f : α → Rule β} {c : Cursor}
    (h : Settles whole depth opened goesOn (rule c).result)
    (next : ∀ a ts, goesOn a ts →
      Settles whole depth opened' goesOn' (f a ⟨ts, depth, opened⟩).result) :
    Settles whole depth opened' goesOn' ((rule >>= f) c).result := by
  change Settles whole depth opened' goesOn' (Rule.bind rule f c).result
  unfold Rule.bind
  generalize rule c = ending at h
  obtain ⟨result, moments⟩ := ending
  cases h with
  | value h => exact next _ _ h
  | error h => exact .error h

theorem Settles.pure {a : α} {ts : List Token} (h : goesOn a ts) :
    Settles whole depth opened goesOn ((pure a : Rule α) ⟨ts, depth, opened⟩).result :=
  .value h

theorem Settles.fail {cause : ParseError} {ts : List Token} (h : whole = .error cause) :
    Settles whole depth opened goesOn ((fail cause : Rule α) ⟨ts, depth, opened'⟩).result :=
  .error h

/-- A rule that counts is applied one level deeper, and the level is left again. -/
theorem Settles.descend {rule : Rule α} {ts : List Token}
    (deep : limits.nesting ≤ depth → whole = .error (.tooDeep limits.nesting))
    (h : depth < limits.nesting →
      Settles whole (depth + 1) opened goesOn (rule ⟨ts, depth + 1, opened'⟩).result) :
    Settles whole depth opened goesOn (descend limits rule ⟨ts, depth, opened'⟩).result := by
  have hdifference : difference? (depth + 1) 1 = some depth :=
    difference?_of_le (Nat.le_add_left 1 depth)
  unfold Descent.descend
  split
  · rename_i hdeep
    exact .error (deep hdeep)
  · rename_i hdeep
    have hrule := h (Nat.lt_of_not_le hdeep)
    simp only
    generalize rule ⟨ts, depth + 1, opened'⟩ = inner at hrule
    obtain ⟨result, moments⟩ := inner
    cases hrule with
    | value h =>
      simp only [Option.bind_eq_bind, Option.bind_some, hdifference]
      exact .value h
    | error h =>
      simp only [Option.bind_eq_bind, Option.bind_some, hdifference]
      exact .error h

end Settles

/-! ### Steps of a rule -/

@[simp] theorem peek_bind (f : Option Token → Rule α) (c : Cursor) :
    ((peek >>= f) c).result = (f c.ahead.head? c).result := rfl

@[simp] theorem advance_bind (f : Option Token → Rule α) (c : Cursor) :
    ((advance >>= f) c).result = (f c.ahead.head? { c with ahead := c.ahead.tail }).result := rfl

@[simp] theorem countOpening_bind (f : Unit → Rule α) (c : Cursor) :
    ((countOpening >>= f) c).result = (f () { c with opened := c.opened + 1 }).result := rfl

@[simp] theorem opened_bind (f : Nat → Rule α) (c : Cursor) :
    ((Descent.opened >>= f) c).result = (f c.opened c).result := rfl

/-! ### The next token -/

section Next

variable {ts : List Token} {kind : Kind}

theorem exists_cons_of_any (h : ts.head?.any (·.kind = kind) = true) :
    ∃ t us, ts = t :: us ∧ t.kind = kind := by
  obtain ⟨t, hhead, ht⟩ := (Option.any_eq_true _ _).mp h
  obtain ⟨us, rfl⟩ := List.head?_eq_some_iff.mp hhead
  exact ⟨t, us, rfl, of_decide_eq_true ht⟩

theorem kind_ne_of_not_any (h : ¬ts.head?.any (·.kind = kind) = true) :
    ∀ t ∈ ts.head?, t.kind ≠ kind :=
  fun t ht hkind => h ((Option.any_eq_true _ _).mpr ⟨t, ht, decide_eq_true hkind⟩)

end Next

/-! ### Where phrases end -/

/-- Whether a token goes on with a phrase. -/
def goesOnWith : Phrase → Kind → Prop
  | .operand, _ => False
  | .signed, _ => False
  | .power, k => k = .caret
  | .product, k => k = .caret ∨ (productOp? k).isSome
  | .sum, k => k = .caret ∨ (productOp? k).isSome ∨ (sumOp? k).isSome

/-- The tokens do not go on with a phrase. -/
def Stops (c : Phrase) (ts : List Token) : Prop :=
  ∀ t ∈ ts.head?, ¬goesOnWith c t.kind

/-- **A power** is closed by whatever does not go on with it. -/
theorem conclude_power (base e : Expr) (frames : List Frame) {ts : List Token}
    (h : Stops .power ts) :
    conclude limits (.complete (.power base :: frames) e none) ts =
      conclude limits (.complete frames (.binary .pow base e) none) ts := by
  rcases ts with _ | ⟨t, ts⟩
  · rfl
  · have ht : t.kind ≠ .caret := h t rfl
    obtain ⟨kind, column⟩ := t
    rw [conclude_cons, conclude_cons]
    cases kind with
    | caret => exact absurd rfl ht
    | _ => rfl

theorem closeProduct_of_admits {frames : List Frame} (h : Admits frames .product) (e : Expr) :
    closeProduct limits frames e = .ok (frames, e) :=
  calc closeProduct limits frames e
    _ = joinProduct limits (closePowers frames e) := rfl
    _ = joinProduct limits (frames, e) := by rw [closePowers_of_admits h]
    _ = .ok (frames, e) := joinProduct_of_admits h e

theorem closeSum_of_admits {frames : List Frame} (h : Admits frames .sum) (e : Expr) :
    closeSum limits frames e = .ok (frames, e) :=
  calc closeSum limits frames e
    _ = closeProduct limits frames e >>= joinSum limits := rfl
    _ = joinSum limits (frames, e) := by
      rw [closeProduct_of_admits (h.of_le (Nat.zero_le _)), ok_bind]
    _ = .ok (frames, e) := joinSum_of_admits h e

theorem closeProduct_product {frames : List Frame} (h : Admits frames .product) (op : BinaryOp)
    (left e : Expr) :
    closeProduct limits (.product op left :: frames) e =
      chain limits op left e >>= closeProduct limits frames := by
  have closed (joined : Expr) : closeProduct limits frames joined = .ok (frames, joined) :=
    closeProduct_of_admits h joined
  simp only [funext closed]
  rfl

theorem closeSum_product {frames : List Frame} (h : Admits frames .product) (op : BinaryOp)
    (left e : Expr) :
    closeSum limits (.product op left :: frames) e =
      chain limits op left e >>= closeSum limits frames :=
  calc closeSum limits (.product op left :: frames) e
    _ = closeProduct limits (.product op left :: frames) e >>= joinSum limits := rfl
    _ = chain limits op left e >>= closeProduct limits frames >>= joinSum limits := by
      rw [closeProduct_product h]
    _ = chain limits op left e >>= closeSum limits frames := bind_assoc ..

theorem closeSum_sum {frames : List Frame} (h : Admits frames .sum) (op : BinaryOp)
    (left e : Expr) :
    closeSum limits (.sum op left :: frames) e =
      chain limits op left e >>= closeSum limits frames := by
  have closed (joined : Expr) : closeSum limits frames joined = .ok (frames, joined) :=
    closeSum_of_admits h joined
  simp only [funext closed]
  rfl

/-- **A product** is closed by whatever does not go on with it, or is too deep. -/
theorem conclude_product {frames : List Frame} (h : Admits frames .product) (op : BinaryOp)
    (left e : Expr) {ts : List Token} (hts : Stops .power ts) :
    conclude limits (.complete (.product op left :: frames) e none) ts =
      chain limits op left e >>= fun joined =>
        conclude limits (.complete frames joined none) ts := by
  rcases ts with _ | ⟨t, ts⟩
  · simp only [conclude_nil, State.finish, closeSum_product h, bind_assoc]
  · have ht : t.kind ≠ .caret := hts t rfl
    simp only [conclude_cons, State.step, readOperator]
    cases hkind : t.kind with
    | caret => exact absurd hkind ht
    | _ => simp only [closeProduct_product h, closeSum_product h, bind_assoc]

/-- **A sum** is closed by whatever does not go on with it, or is too deep. -/
theorem conclude_sum {frames : List Frame} (h : Admits frames .sum) (op : BinaryOp)
    (left e : Expr) {ts : List Token} (hts : Stops .product ts) :
    conclude limits (.complete (.sum op left :: frames) e none) ts =
      chain limits op left e >>= fun joined =>
        conclude limits (.complete frames joined none) ts := by
  rcases ts with _ | ⟨t, ts⟩
  · simp only [conclude_nil, State.finish, closeSum_sum h, bind_assoc]
  · have ht : ¬goesOnWith .product t.kind := hts t rfl
    simp only [conclude_cons, State.step, readOperator]
    cases hkind : t.kind with
    | caret | star | slash => simp [goesOnWith, productOp?, hkind] at ht
    | _ => simp only [closeSum_sum h, bind_assoc]

/-- A token that does not go on with a sum has to end what the sum stands in. -/
theorem step_of_not_goesOnWith {frames : List Frame} (h : Admits frames .sum) (e : Expr) {t : Token}
    (ht : ¬goesOnWith .sum t.kind) :
    (State.complete frames e none).step limits t = readCloser frames e t := by
  simp only [State.step, readOperator]
  cases hkind : t.kind with
  | caret | star | slash | plus | minus => simp [goesOnWith, productOp?, sumOp?, hkind] at ht
  | _ => simp only [closeSum_of_admits h, ok_bind]

end Descent

end Expr

end CurvePlot
