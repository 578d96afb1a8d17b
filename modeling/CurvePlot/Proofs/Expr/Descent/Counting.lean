import CurvePlot.Proofs.Expr.Descent.Reading

/-!
# Counting open parentheses

Where an operand must come, recursive descent tells an unmatched closing parenthesis from one that is
only unexpected by the number of open parentheses. Two rules count an opening one after they took it,
and one rule counts a closing one.

The number is right at every moment of a run (`Descent.counts_formula`). Whenever the tokens ahead
are looked at, it is the difference of the parentheses that the tokens taken so far open and close.
Between taking a parenthesis and counting it, this is true of the tokens before. Runs that end with an
error are no exception, whatever they leave open, nor are runs with too few calls. That no rule counts
down from zero is not said here but in `ofTokens?_eq`.

The reader that goes over the tokens once has no such number; it is inside of as many frames. What
both know of parentheses, and what is said of them in errors, is put together in `parse_parens_exact`.
-/

namespace CurvePlot

namespace Expr

open Token (Kind)

namespace Descent

variable {α β : Type} {limits : Limits} {tokens : List Token}

/-! ### What is counted -/

/-- The number of open parentheses **counts** the tokens that were taken. -/
def Cursor.Counts (tokens : List Token) (c : Cursor) : Prop :=
  ∃ taken, tokens = taken ++ c.ahead ∧ c.opened + closings taken = openings taken

/-- It counts the tokens **before a parenthesis** that was taken last. -/
def Cursor.CountsBefore (tokens : List Token) (c : Cursor) : Prop :=
  ∃ taken paren, tokens = taken ++ paren :: c.ahead ∧ isParen paren.kind = true ∧
    c.opened + closings taken = openings taken

/-- What the number counts at a moment. -/
def Moment.Counts (tokens : List Token) : Moment → Prop
  | .looking c => c.Counts tokens
  | .counting c => c.CountsBefore tokens

/-- What the number counts after a value or an error. An error may be about a parenthesis that was
taken and is not counted. -/
def Cursor.CountsAfter (tokens : List Token) (c : Cursor) : Except ParseError α → Prop
  | .ok _ => c.Counts tokens
  | .error _ => c.Counts tokens ∨ c.CountsBefore tokens

/-- The number is right at every moment and at the end. -/
structure Ending.Counts (tokens : List Token) (e : Ending α) : Prop where
  moment : ∀ moment ∈ e.moments, moment.Counts tokens
  last : ∀ answer c, e.result = some (answer, c) → c.CountsAfter tokens answer

/-- However a rule ends, the number is right up to the parenthesis that was taken last. -/
theorem Cursor.CountsAfter.counts_or_countsBefore {c : Cursor} {answer : Except ParseError α}
    (h : c.CountsAfter tokens answer) : c.Counts tokens ∨ c.CountsBefore tokens := by
  rcases answer with cause | a
  · exact h
  · exact .inl h

/-- A rule **keeps count** of the tokens that it takes. -/
def KeepsCount (tokens : List Token) (rule : Rule α) : Prop :=
  ∀ c : Cursor, c.Counts tokens → (rule c).Counts tokens

/-! ### One token more -/

namespace Cursor.Counts

variable {t : Token} {ts : List Token} {depth opened depth' opened' : Nat}

/-- The number has to change as the token says. -/
theorem take (h : Cursor.Counts tokens ⟨t :: ts, depth, opened⟩)
    (hcount : opened' + closings [t] = opened + openings [t]) :
    Cursor.Counts tokens ⟨ts, depth', opened'⟩ := by
  obtain ⟨taken, rfl, htaken⟩ := h
  refine ⟨taken ++ [t], List.append_cons taken t ts, ?_⟩
  rw [openings_append, closings_append]
  simp only at htaken ⊢
  omega

theorem skip (h : Cursor.Counts tokens ⟨t :: ts, depth, opened⟩) (ht : isParen t.kind = false) :
    Cursor.Counts tokens ⟨ts, depth, opened⟩ :=
  h.take (by rw [(Balanced.singleton ht).settled])

theorem opening (h : Cursor.Counts tokens ⟨t :: ts, depth, opened⟩) (ht : t.kind = .lparen) :
    Cursor.Counts tokens ⟨ts, depth, opened + 1⟩ :=
  h.take (by simp [ht])

theorem closing (h : Cursor.Counts tokens ⟨t :: ts, depth, opened + 1⟩) (ht : t.kind = .rparen) :
    Cursor.Counts tokens ⟨ts, depth, opened⟩ :=
  h.take (by simp [ht])

theorem before (h : Cursor.Counts tokens ⟨t :: ts, depth, opened⟩) (ht : isParen t.kind = true) :
    Cursor.CountsBefore tokens ⟨ts, depth, opened⟩ := by
  obtain ⟨taken, htokens, htaken⟩ := h
  exact ⟨taken, t, htokens, ht, htaken⟩

/-- If the number is left as it is, it is right of the tokens with the new one or without it. -/
theorem skip_or_before (h : Cursor.Counts tokens ⟨t :: ts, depth, opened⟩) :
    Cursor.Counts tokens ⟨ts, depth, opened⟩ ∨ Cursor.CountsBefore tokens ⟨ts, depth, opened⟩ := by
  cases ht : isParen t.kind with
  | false => exact .inl (h.skip ht)
  | true => exact .inr (h.before ht)

end Cursor.Counts

/-! ### Steps of a rule -/

namespace Ending.Counts

variable {rule : Rule α} {c : Cursor} {t : Token} {ts : List Token} {depth opened : Nat}

theorem pure {a : α} (h : c.Counts tokens) : ((pure a : Rule α) c).Counts tokens where
  moment := nofun
  last := by
    rintro _ _ ⟨⟩
    exact h

theorem fail {cause : ParseError} (h : c.Counts tokens ∨ c.CountsBefore tokens) :
    ((Rule.fail cause : Rule α) c).Counts tokens where
  moment := nofun
  last := by
    rintro _ _ ⟨⟩
    exact h

theorem leave : ((Rule.leave : Rule α) c).Counts tokens where
  moment := nofun
  last := nofun

theorem ofExcept (r : Except ParseError α) (h : c.Counts tokens) :
    (Rule.ofExcept r c).Counts tokens := by
  rcases r with cause | a
  · exact .fail (.inl h)
  · exact .pure h

/-- One rule after the other. -/
theorem bind {f : α → Rule β} (h : (rule c).Counts tokens)
    (next : ∀ a c', c'.Counts tokens → (f a c').Counts tokens) :
    ((rule >>= f) c).Counts tokens := by
  change (Rule.bind rule f c).Counts tokens
  unfold Rule.bind
  generalize rule c = ending at h
  obtain ⟨_ | ⟨cause | a, c'⟩, moments⟩ := ending
  · exact ⟨h.moment, nofun⟩
  · refine ⟨h.moment, ?_⟩
    rintro _ _ ⟨⟩
    exact h.last (.error cause) c' rfl
  · have hnext := next a c' (h.last (.ok a) c' rfl)
    refine ⟨?_, hnext.last⟩
    intro moment hmoment
    rcases List.mem_append.mp hmoment with hfirst | hlast
    · exact h.moment moment hfirst
    · exact hnext.moment moment hlast

/-- One moment more before the others. -/
theorem cons {e : Ending α} (he : e.Counts tokens) (moment : Moment) (h : moment.Counts tokens) :
    Ending.Counts tokens { e with moments := moment :: e.moments } where
  moment := List.forall_mem_cons.mpr ⟨h, he.moment⟩
  last := he.last

theorem peek_bind {f : Option Token → Rule α} (h : c.Counts tokens)
    (next : (f c.ahead.head? c).Counts tokens) : ((peek >>= f) c).Counts tokens :=
  next.cons (.looking c) h

theorem advance_bind {f : Option Token → Rule α} (h : c.Counts tokens)
    (next : (f c.ahead.head? { c with ahead := c.ahead.tail }).Counts tokens) :
    ((advance >>= f) c).Counts tokens :=
  next.cons (.looking c) h

theorem opened_bind {f : Nat → Rule α} (h : c.CountsBefore tokens)
    (next : (f c.opened c).Counts tokens) : ((Descent.opened >>= f) c).Counts tokens :=
  next.cons (.counting c) h

theorem countOpening_bind {f : Unit → Rule α}
    (h : Cursor.Counts tokens ⟨t :: ts, depth, opened⟩) (ht : t.kind = .lparen)
    (next : (f () ⟨ts, depth, opened + 1⟩).Counts tokens) :
    ((countOpening >>= f) ⟨ts, depth, opened⟩).Counts tokens :=
  next.cons (.counting ⟨ts, depth, opened⟩) (h.before (by rw [ht]; rfl))

theorem countClosing (h : Cursor.Counts tokens ⟨t :: ts, depth, opened⟩) (ht : t.kind = .rparen) :
    (countClosing ⟨ts, depth, opened⟩).Counts tokens where
  moment := by
    rintro _ (_ | ⟨_, ⟨⟩⟩)
    exact h.before (by rw [ht]; rfl)
  last := by
    intro _ _ hresult
    obtain ⟨n, hn, ⟨⟩⟩ := Option.map_eq_some_iff.mp hresult
    cases opened with
    | zero => cases hn
    | succ opened =>
      cases hn
      exact h.closing ht

/-- How many rules are nested in each other is not looked at. -/
theorem descend (h : KeepsCount tokens rule) (hc : c.Counts tokens) :
    (descend limits rule c).Counts tokens := by
  have hinner := h { c with depth := c.depth + 1 } hc
  unfold Descent.descend
  split
  · exact .fail (.inl hc)
  · simp only
    generalize rule { c with depth := c.depth + 1 } = inner at hinner
    refine ⟨hinner.moment, ?_⟩
    intro _ _ hresult
    obtain ⟨⟨answer, c'⟩, hinside, hresult⟩ := Option.bind_eq_some_iff.mp hresult
    obtain ⟨_, -, ⟨⟩⟩ := Option.bind_eq_some_iff.mp hresult
    have hlast := hinner.last answer c' hinside
    rcases answer with cause | a
    · exact hlast
    · exact hlast

end Ending.Counts

open Rule (fail)

/-! ### Every rule keeps count -/

theorem keepsCount_closeParen (column : Nat) : KeepsCount tokens (closeParen column) := by
  rintro ⟨ts, depth, opened⟩ h
  refine .advance_bind h ?_
  rcases ts with _ | ⟨t, ts⟩
  · exact .fail (.inl h)
  · by_cases ht : t.kind = .rparen
    · simp only [List.head?_cons, List.tail_cons, ht, ↓reduceIte]
      exact .countClosing h ht
    · simp only [List.head?_cons, List.tail_cons, ht, ↓reduceIte]
      exact .fail h.skip_or_before

section Calls

variable {sum : Rule Expr}

theorem keepsCount_moreArguments (hsum : KeepsCount tokens sum) (rounds : Nat)
    (before : List Expr) : KeepsCount tokens (moreArguments sum rounds before) := by
  induction rounds generalizing before with
  | zero => exact fun _ _ => .leave
  | succ rounds ih =>
    rintro ⟨ts, depth, opened⟩ h
    refine .peek_bind h ?_
    split
    · rename_i hcomma
      obtain ⟨t, us, rfl, ht⟩ := exists_cons_of_any hcomma
      refine .advance_bind h ((hsum _ (h.skip (by rw [ht]; rfl))).bind ?_)
      intro next c' h'
      exact ih (before ++ [next]) c' h'
    · exact .pure h

theorem keepsCount_argumentList (hsum : KeepsCount tokens sum) (rounds : Nat) :
    KeepsCount tokens (argumentList sum rounds) := by
  intro c h
  refine .peek_bind h ?_
  split
  · exact .pure h
  · exact (hsum c h).bind fun first c' h' => keepsCount_moreArguments hsum rounds [first] c' h'

theorem keepsCount_removeAt (given : List Expr) (i : Nat) :
    KeepsCount tokens (removeAt given i) := by
  intro c h
  refine ⟨nofun, ?_⟩
  intro _ _ hresult
  obtain ⟨_, -, ⟨⟩⟩ := Option.map_eq_some_iff.mp hresult
  exact h

theorem keepsCount_apply (f : Callable) (given : List Expr) :
    KeepsCount tokens (apply f given) := by
  intro c h
  cases f with
  | unary g =>
    refine (keepsCount_removeAt given 0 c h).bind ?_
    rintro ⟨a, _⟩ c' h'
    exact .pure h'
  | binary g =>
    refine (keepsCount_removeAt given 1 c h).bind ?_
    rintro ⟨right, rest⟩ c' h'
    refine (keepsCount_removeAt rest 0 c' h').bind ?_
    rintro ⟨left, _⟩ c'' h''
    exact .pure h''

/-- The parenthesis of the arguments is counted, since it is one. -/
theorem counts_arguments (hsum : KeepsCount tokens sum) (rounds : Nat) {t : Token}
    {ts : List Token} {depth opened : Nat} (h : Cursor.Counts tokens ⟨t :: ts, depth, opened⟩)
    (ht : t.kind = .lparen) : (arguments sum rounds ⟨t :: ts, depth, opened⟩).Counts tokens := by
  refine .advance_bind h (.countOpening_bind h ht ?_)
  refine (keepsCount_argumentList hsum rounds _ (h.opening ht)).bind ?_
  intro given c' h'
  exact (keepsCount_closeParen t.column c' h').bind fun _ _ h'' => .pure h''

/-- A name that stands for itself is not counted, and neither is the parenthesis after it. -/
theorem keepsCount_bare (e : Expr) (letters : String) (column : Nat) :
    KeepsCount tokens (peek >>= fun next => if next.any (·.kind = .lparen) then
      fail (.notCallable letters column) else pure e) := by
  intro c h
  refine .peek_bind h ?_
  split
  · exact .fail (.inl h)
  · exact .pure h

theorem keepsCount_named (hsum : KeepsCount tokens sum) (rounds : Nat) (letters : String)
    (column : Nat) : KeepsCount tokens (named sum rounds letters column) := by
  rintro ⟨ts, depth, opened⟩ h
  unfold named
  cases Builtin.ofName? letters with
  | none => exact .fail (.inl h)
  | some b =>
    cases b with
    | x => exact keepsCount_bare .var letters column _ h
    | constant c => exact keepsCount_bare (.named c) letters column _ h
    | callable f =>
      refine .peek_bind h ?_
      split
      · rename_i hcall
        obtain ⟨t, us, rfl, ht⟩ := exists_cons_of_any hcall
        refine (counts_arguments hsum rounds h ht).bind ?_
        intro given c' h'
        split
        · exact keepsCount_apply f given c' h'
        · exact .fail (.inl h')
      · exact .fail (.inl h)

theorem keepsCount_operand (hsum : KeepsCount tokens sum) (rounds : Nat) :
    KeepsCount tokens (operand sum rounds) := by
  rintro ⟨ts, depth, opened⟩ h
  refine .advance_bind h ?_
  rcases ts with _ | ⟨⟨kind, column⟩, ts⟩
  · exact .fail (.inl h)
  · cases kind with
    | number value => exact .pure (h.skip rfl)
    | name letters => exact keepsCount_named hsum rounds letters column _ (h.skip rfl)
    | lparen =>
      refine .countOpening_bind h rfl ((hsum _ (h.opening rfl)).bind ?_)
      intro inside c' h'
      exact (keepsCount_closeParen column c' h').bind fun _ _ h'' => .pure h''
    | rparen =>
      refine .opened_bind (h.before rfl) ?_
      split
      · exact .fail h.skip_or_before
      · exact .fail h.skip_or_before
    | _ => exact .fail h.skip_or_before

end Calls

/-! ### Phrases -/

theorem isParen_of_productOp? (kind : Kind) (h : (productOp? kind).isSome) :
    isParen kind = false := by
  cases kind with
  | lparen | rparen => cases h
  | _ => rfl

theorem isParen_of_sumOp? (kind : Kind) (h : (sumOp? kind).isSome) :
    isParen kind = false := by
  cases kind with
  | lparen | rparen => cases h
  | _ => rfl

/-- The operators of a chain are not parentheses. -/
theorem keepsCount_chainRest {op? : Kind → Option BinaryOp} {next : Rule Expr}
    (hop : ∀ kind, (op? kind).isSome → isParen kind = false) (hnext : KeepsCount tokens next)
    (rounds : Nat) (left : Expr) : KeepsCount tokens (chainRest limits op? next rounds left) := by
  induction rounds generalizing left with
  | zero => exact fun _ _ => .leave
  | succ rounds ih =>
    rintro ⟨ts, depth, opened⟩ h
    refine .peek_bind h ?_
    cases hhead : ts.head?.bind fun t => op? t.kind with
    | none => exact .pure h
    | some op =>
      obtain ⟨t, ht, hkind⟩ := Option.bind_eq_some_iff.mp hhead
      obtain ⟨us, rfl⟩ := List.head?_eq_some_iff.mp ht
      have htaken := h.skip (hop t.kind (Option.isSome_of_eq_some hkind))
      refine .advance_bind h ((hnext _ htaken).bind ?_)
      intro right c' h'
      exact (Ending.Counts.ofExcept (chain limits op left right) h').bind fun joined => ih joined

theorem keepsCount_product {power : Rule Expr} (hpower : KeepsCount tokens power) (rounds : Nat) :
    KeepsCount tokens (product limits power rounds) := fun c h =>
  (hpower c h).bind fun first => keepsCount_chainRest isParen_of_productOp? hpower rounds first

theorem keepsCount_sum {power : Rule Expr} (hpower : KeepsCount tokens power) (rounds : Nat) :
    KeepsCount tokens (sum limits power rounds) := by
  have hproduct : KeepsCount tokens (product limits power rounds) :=
    keepsCount_product hpower rounds
  intro c h
  exact (hproduct c h).bind fun first =>
    keepsCount_chainRest isParen_of_sumOp? hproduct rounds first

theorem keepsCount_signed_and_power (calls : Nat) :
    KeepsCount tokens (signed limits calls) ∧ KeepsCount tokens (power limits calls) := by
  induction calls with
  | zero => exact ⟨fun _ _ => .leave, fun _ _ => .leave⟩
  | succ calls ih =>
    obtain ⟨hsigned, hpower⟩ := ih
    constructor
    · rintro ⟨ts, depth, opened⟩ h
      have hsum : KeepsCount tokens (sum limits (power limits calls) calls) :=
        keepsCount_sum hpower calls
      have hoperand := keepsCount_operand hsum calls _ h
      refine .peek_bind h ?_
      rcases ts with _ | ⟨⟨kind, column⟩, ts⟩
      · exact hoperand
      · cases kind with
        | minus =>
          refine .advance_bind h (.descend ?_ (h.skip rfl))
          exact fun c h' => (hsigned c h').bind fun _ _ h'' => .pure h''
        | plus => exact .advance_bind h (.descend hsigned (h.skip rfl))
        | _ => exact hoperand
    · refine fun c h => .descend ?_ h
      rintro ⟨ts, depth, opened⟩ h
      refine (hsigned _ h).bind ?_
      rintro base ⟨us, depth, opened⟩ h
      refine .peek_bind h ?_
      split
      · rename_i hcaret
        obtain ⟨t, vs, rfl, ht⟩ := exists_cons_of_any hcaret
        refine .advance_bind h ((hpower _ (h.skip (by rw [ht]; rfl))).bind ?_)
        exact fun _ _ h' => .pure h'
      · exact .pure h

/-- **The number is right at every moment** of reading a formula, however the reading ends. -/
theorem counts_formula (limits : Limits) (calls : Nat) (tokens : List Token) :
    (formula limits calls ⟨tokens, 0, 0⟩).Counts tokens := by
  have hpower : KeepsCount tokens (power limits calls) := (keepsCount_signed_and_power calls).2
  refine (keepsCount_sum hpower calls _ ⟨[], rfl, rfl⟩).bind ?_
  rintro whole ⟨us, depth, opened⟩ h
  refine .peek_bind h ?_
  rcases us with _ | ⟨t, us⟩
  · exact .pure h
  · simp only [List.head?_cons]
    split
    · exact .fail (.inl h)
    · exact .fail (.inl h)

/-- A parenthesis is taken before it is counted. -/
example :
    ((formula .standard 8 ⟨[⟨.lparen, 1⟩, ⟨.name "x", 2⟩, ⟨.rparen, 3⟩], 0, 0⟩).moments.map fun
      | .looking c => (c.ahead.length, c.opened)
      | .counting c => (c.ahead.length, c.opened)) =
      [(3, 0), (3, 0), (2, 0), (2, 1), (2, 1), (1, 1), (1, 1), (1, 1), (1, 1), (1, 1), (0, 1),
        (0, 0), (0, 0), (0, 0), (0, 0)] := by
  decide

end Descent

/-! ### What is said of parentheses -/

/-- **What is said of parentheses is exact**, for every source that has tokens.

At every moment of recursive descent, which gives what the reader gives, the number of open
parentheses is the difference of those that the tokens taken so far have opened and closed, up to
the parenthesis that was taken last. In every state that the reader comes to, it is inside of as
many parentheses as the tokens before have opened and not closed, and the state before a closing
parenthesis that it takes is inside of one parenthesis more. An unmatched parenthesis stands after
equally many opening and closing ones, no prefix of which has more closing ones; an unexpected one
that closes something has a partner before it; and when one is unclosed, all tokens have been read,
it has no partner, and all after it have one. So a source whose parentheses balance is never said to
have an unmatched or an unclosed one. -/
theorem parse_parens_exact {source : String} {tokens : List Token}
    (hscan : Token.scan source = .ok tokens) :
    (∀ calls, 2 * tokens.length + 2 ≤ calls →
      let run := Descent.formula .standard calls ⟨tokens, 0, 0⟩
      (∃ c, run.result = some (ofTokens tokens, c) ∧ (c.Counts tokens ∨ c.CountsBefore tokens)) ∧
        ∀ moment ∈ run.moments, moment.Counts tokens) ∧
    (∀ done s, done <+: tokens → State.start.run .standard done = .ok s →
      s.openColumns.length + closings done = openings done ∧
        ∀ t s', t.kind = .rparen → s.step .standard t = .ok s' →
          s'.openColumns.length + 1 = s.openColumns.length) ∧
    (∀ column, parse source = .error (.unmatchedParen column) →
      ∃ before after, tokens = before ++ ⟨.rparen, column⟩ :: after ∧
        openings before = closings before ∧
        (∀ part, part <+: before → closings part ≤ openings part) ∧ ¬IsOpenedIn before) ∧
    (∀ column expected, parse source = .error (.unexpectedToken .rparen column expected) →
      ∃ before after, tokens = before ++ ⟨.rparen, column⟩ :: after ∧ IsOpenedIn before) ∧
    (∀ column, parse source = .error (.unclosedParen column) →
      (∃ s, State.start.run .standard tokens = .ok s) ∧
      ∃ before after, tokens = before ++ ⟨.lparen, column⟩ :: after ∧ ¬IsClosedIn after ∧
        ∀ between opening rest, after = between ++ ⟨.lparen, opening⟩ :: rest → IsClosedIn rest) ∧
    (Balanced tokens → ∀ column, parse source ≠ .error (.unmatchedParen column) ∧
      parse source ≠ .error (.unclosedParen column)) := by
  have unmatched (column : Nat) (h : parse source = .error (.unmatchedParen column)) :=
    balanced_of_unmatchedParen (ofTokens_eq_error_of_parse hscan h (by simp))
  have unclosed (column : Nat) (h : parse source = .error (.unclosedParen column)) :=
    balanced_of_unclosedParen (ofTokens_eq_error_of_parse hscan h (by simp))
  refine ⟨fun calls hcalls => ?_, fun done s _ hrun => ⟨?_, fun t s' ht hstep => ?_⟩,
    fun column h => ?_, fun column expected h => ?_, fun column h => ?_,
    fun balanced column => ⟨fun h => ?_, fun h => ?_⟩⟩
  · have counts := Descent.counts_formula .standard calls tokens
    have hnesting : 1 ≤ Limits.standard.nesting := by decide
    obtain ⟨c, hresult⟩ := Descent.result_formula hnesting hcalls
    exact ⟨⟨c, hresult, (counts.last _ c hresult).counts_or_countsBefore⟩, counts.moment⟩
  · exact (leavesOpen_of_run_start hrun).length_add
  · have hopen := List.length_pos_iff.mpr (State.openColumns_ne_nil hstep ht)
    rw [State.openColumns_step hstep, openAfter_of_rparen ht, List.length_tail]
    omega
  · obtain ⟨before, after, htokens, hbefore⟩ := unmatched column h
    exact ⟨before, after, htokens, hbefore.settled.symm, hbefore.paired, hbefore.not_isOpenedIn⟩
  · exact isOpenedIn_of_unexpectedToken (ofTokens_eq_error_of_parse hscan h (by simp))
  · obtain ⟨hrun, -, before, after, htokens, hafter⟩ := unclosed column h
    refine ⟨hrun, before, after, htokens, hafter.paired.not_isClosedIn, ?_⟩
    rintro between opening rest rfl
    exact hafter.isClosedIn
  · obtain ⟨before, after, rfl, hbefore⟩ := unmatched column h
    exact balanced.paired.not_isClosedIn ⟨before, column, after, rfl, hbefore⟩
  · obtain ⟨-, -, before, after, rfl, hafter⟩ := unclosed column h
    exact hafter.paired.not_isClosedIn balanced.isClosedIn

/-- An unmatched parenthesis, one that is unexpected, and the last of two that are unclosed. -/
theorem parse_parens_exact_three :
    (parse "(x))" = .error (.unmatchedParen 4) ∧
      ∃ tokens before after, Token.scan "(x))" = .ok tokens ∧
        tokens = before ++ ⟨.rparen, 4⟩ :: after ∧ openings before = closings before) ∧
    (parse "(x*)" = .error (.unexpectedToken .rparen 4 .operand) ∧
      ∃ tokens before after, Token.scan "(x*)" = .ok tokens ∧
        tokens = before ++ ⟨.rparen, 4⟩ :: after ∧ IsOpenedIn before) ∧
    (parse "((x" = .error (.unclosedParen 2) ∧
      ∃ tokens before after, Token.scan "((x" = .ok tokens ∧
        tokens = before ++ ⟨.lparen, 2⟩ :: after ∧ ¬IsClosedIn after ∧
        ∀ moment ∈ (Descent.formula .standard 8 ⟨tokens, 0, 0⟩).moments, moment.Counts tokens) := by
  have unmatched : parse "(x))" = .error (.unmatchedParen 4) := by decide +kernel
  have unexpected : parse "(x*)" = .error (.unexpectedToken .rparen 4 .operand) := by
    decide +kernel
  have unclosed : parse "((x" = .error (.unclosedParen 2) := by decide +kernel
  have hscan : Token.scan "(x))" =
      .ok [⟨.lparen, 1⟩, ⟨.name "x", 2⟩, ⟨.rparen, 3⟩, ⟨.rparen, 4⟩] := by decide +kernel
  have hscan' : Token.scan "(x*)" =
      .ok [⟨.lparen, 1⟩, ⟨.name "x", 2⟩, ⟨.star, 3⟩, ⟨.rparen, 4⟩] := by decide +kernel
  have hscan'' : Token.scan "((x" = .ok [⟨.lparen, 1⟩, ⟨.lparen, 2⟩, ⟨.name "x", 3⟩] := by
    decide +kernel
  obtain ⟨before, after, htokens, hcount, -⟩ := (parse_parens_exact hscan).2.2.1 4 unmatched
  obtain ⟨before', after', htokens', hopened⟩ :=
    (parse_parens_exact hscan').2.2.2.1 4 .operand unexpected
  obtain ⟨-, before'', after'', htokens'', hclosed, -⟩ :=
    (parse_parens_exact hscan'').2.2.2.2.1 2 unclosed
  have counts := ((parse_parens_exact hscan'').1 8 (by decide)).2
  exact ⟨⟨unmatched, _, before, after, hscan, htokens, hcount⟩,
    ⟨unexpected, _, before', after', hscan', htokens', hopened⟩,
    unclosed, _, before'', after'', hscan'', htokens'', hclosed, counts⟩

end Expr

end CurvePlot
