import CurvePlot.Proofs.Expr.Balance

/-!
# Refusals are permanent

Tokens may be refused because they merely **end too early**: an operand, a closing parenthesis or the
parenthesis of a call is missing after the last of them (`EndsEarly`). Any other refusal is final,
whatever tokens come after. If one of the tokens is refused, the reader never sees what comes after
it. If all of them are read, there are two more reasons to refuse their end.

A chain at the end may be too deep. It stays open, since the tokens after it may go on with its last
operand, but they can only make that operand deeper. So the frames of such a state **doom** every
operand they may be given (`Dooms`), which a step keeps true (`State.Doomed.step`), and a doomed state
comes to no formula (`State.Doomed.exists_error`).

The first argument of a call may stand too deep. This is said at the end of the tokens already, where
an argument is missing; but if the call is closed at once there is no argument, and what is wrong with
the call then is the number of its arguments (`ClosesEmptyCall`). That is the one refusal that is
replaced by another one without a chain being too deep (`empty_call_at_limit`).
-/

namespace CurvePlot

namespace Expr

open Token (Kind)

variable {limits : Limits}

/-! ### Frames that doom their operands -/

theorem one_le_depth (t : Expr) : 1 ≤ t.depth := by
  cases t <;> simp [depth]

/-- The frames **doom** an operand of at least the given depth: a chain that has to take it, with
what stands between the two, is too deep. What is inside of parentheses does not matter outside of
them, as it may be replaced. -/
def Dooms (limits : Limits) : List Frame → Nat → Prop
  | [], _ => False
  | .sign true :: outer, d => Dooms limits outer (d + 1)
  | .sign false :: outer, d => Dooms limits outer d
  | .power base :: outer, d => Dooms limits outer (max base.depth d + 1)
  | .product _ left :: outer, d | .sum _ left :: outer, d =>
    limits.depth < max left.depth d + 1 ∨ Dooms limits outer (max left.depth d + 1)
  | .group _ :: outer, _ | .call _ _ _ :: outer, _ => Dooms limits outer 1

/-- A deeper operand is doomed as well. -/
theorem Dooms.mono {frames : List Frame} {d d' : Nat} (h : Dooms limits frames d)
    (hd : d ≤ d') : Dooms limits frames d' := by
  induction frames generalizing d d' with
  | nil => exact h
  | cons frame outer ih =>
    have grows (left : Expr) : max left.depth d + 1 ≤ max left.depth d' + 1 := by omega
    cases frame with
    | sign negates =>
      cases negates with
      | false => exact ih h hd
      | true => exact ih h (Nat.succ_le_succ hd)
    | power base => exact ih h (grows base)
    | product op left | sum op left =>
      exact h.imp (fun deep => Nat.lt_of_lt_of_le deep (grows left)) fun h => ih h (grows left)
    | group column | call f column arguments => exact h

/-- Inside of whatever is opened next, everything is doomed. -/
theorem Dooms.cons {frames : List Frame} (h : Dooms limits frames 1) (frame : Frame) :
    Dooms limits (frame :: frames) 1 := by
  cases frame with
  | sign negates =>
    cases negates with
    | false => exact h
    | true => exact h.mono (Nat.le_succ 1)
  | power base => exact h.mono (Nat.le_add_left 1 _)
  | product op left | sum op left => exact .inr (h.mono (Nat.le_add_left 1 _))
  | group column | call f column arguments => exact h

theorem dooms_applySigns (frames : List Frame) (e : Expr) :
    Dooms limits (applySigns frames e).1 (applySigns frames e).2.depth ↔
      Dooms limits frames e.depth := by
  fun_induction applySigns frames e with
  | case1 outer e ih => exact ih
  | case2 outer e ih => exact ih
  | case3 => exact Iff.rfl

theorem dooms_closePowers (frames : List Frame) (e : Expr) :
    Dooms limits (closePowers frames e).1 (closePowers frames e).2.depth ↔
      Dooms limits frames e.depth := by
  fun_induction closePowers frames e with
  | case1 base outer e ih => exact ih
  | case2 => exact Iff.rfl

theorem chain_eq_error_iff {op : BinaryOp} {left right : Expr} {cause : ParseError} :
    chain limits op left right = .error cause ↔
      limits.depth < max left.depth right.depth + 1 ∧ cause = .tooDeep limits.depth := by
  rw [chain, depth]
  split
  · rename_i fits
    exact iff_of_false (by simp) fun h => absurd h.1 (Nat.not_lt.mpr fits)
  · rename_i deep
    rw [Except.error.injEq, eq_comm]
    exact (and_iff_right (Nat.lt_of_not_le deep)).symm

/-- A chain that is joined and fits is doomed exactly if it was before. -/
theorem dooms_of_chain {op : BinaryOp} {left right joined : Expr} {outer : List Frame}
    (h : chain limits op left right = .ok joined) :
    Dooms limits outer joined.depth ↔
      limits.depth < max left.depth right.depth + 1 ∨
        Dooms limits outer (max left.depth right.depth + 1) := by
  have fits : ¬limits.depth < max left.depth right.depth + 1 := by
    intro deep
    rw [chain_eq_error_iff.mpr ⟨deep, rfl⟩] at h
    cases h
  rw [eq_of_chain h, depth, or_iff_right fits]

theorem dooms_closeProduct {frames outer : List Frame} {e joined : Expr}
    (h : closeProduct limits frames e = .ok (outer, joined)) :
    Dooms limits outer joined.depth ↔ Dooms limits frames e.depth := by
  rw [← dooms_closePowers frames e]
  unfold closeProduct at h
  generalize closePowers frames e = closed at h ⊢
  split at h
  · obtain ⟨joined', hchain, h⟩ := eq_ok_of_bind h
    cases h
    exact dooms_of_chain hchain
  · cases h
    exact Iff.rfl

theorem dooms_closeSum {frames outer : List Frame} {e joined : Expr}
    (h : closeSum limits frames e = .ok (outer, joined)) :
    Dooms limits outer joined.depth ↔ Dooms limits frames e.depth := by
  obtain ⟨closed, hproduct, h⟩ := eq_ok_of_bind h
  rw [← dooms_closeProduct hproduct]
  split at h
  · obtain ⟨joined', hchain, h⟩ := eq_ok_of_bind h
    cases h
    exact dooms_of_chain hchain
  · cases h
    exact Iff.rfl

/-- A sum that cannot be closed is doomed. -/
theorem dooms_of_closeSum_eq_error {frames : List Frame} {e : Expr} {cause : ParseError}
    (h : closeSum limits frames e = .error cause) :
    Dooms limits frames e.depth ∧ cause = .tooDeep limits.depth := by
  refine ⟨?_, failsOnly_closeSum frames e cause h⟩
  rcases hproduct : closeProduct limits frames e with cause' | ⟨outer, right⟩
  · rw [← dooms_closePowers]
    unfold closeProduct at hproduct
    generalize closePowers frames e = closed at hproduct ⊢
    split at hproduct
    · rename_i op left outer right
      rcases hchain : chain limits op left right with cause'' | joined
      · exact .inl (chain_eq_error_iff.mp hchain).1
      · rw [hchain] at hproduct
        cases hproduct
    · cases hproduct
  · rw [← dooms_closeProduct hproduct]
    rw [closeSum, hproduct, ok_bind] at h
    split at h
    · rename_i op left outer' right' heq
      cases heq
      rcases hchain : chain limits op left right with cause'' | joined
      · exact .inl (chain_eq_error_iff.mp hchain).1
      · rw [hchain] at h
        cases h
    · cases h

/-! ### Doomed states -/

/-- Whatever operand comes next, or goes on with the last one, is **doomed**. -/
def State.Doomed (limits : Limits) : State → Prop
  | .operand frames | .callee frames _ _ | .arguments frames _ _ => Dooms limits frames 1
  | .complete frames e _ => Dooms limits frames e.depth

theorem doomed_finishOperand {frames : List Frame} (h : Dooms limits frames 1) (e : Expr)
    (bare : Option (String × Nat)) : (finishOperand frames e bare).Doomed limits :=
  (dooms_applySigns frames e).mpr (h.mono e.one_le_depth)

theorem doomed_of_nest {frame : Frame} {frames : List Frame} {s : State}
    (h : Dooms limits frames 1) (hs : State.operand <$> nest limits frame frames = .ok s) :
    s.Doomed limits := by
  rw [eq_operand_of_nest hs]
  exact h.cons frame

theorem doomed_readOperand {frames : List Frame} {t : Token} {s : State}
    (h : Dooms limits frames 1) (hs : readOperand limits frames t = .ok s) : s.Doomed limits := by
  unfold readOperand at hs
  split at hs
  · cases hs
    exact doomed_finishOperand h _ _
  · exact doomed_of_nest h hs
  · exact doomed_of_nest h hs
  · exact doomed_of_nest h hs
  · split at hs
    · cases hs
    · cases hs
      exact doomed_finishOperand h _ _
    · cases hs
      exact doomed_finishOperand h _ _
    · cases hs
      exact h
  · split at hs <;> cases hs
  · cases hs

theorem doomed_finishCall {frames : List Frame} {f : Callable} {arguments : List Expr} {s : State}
    (h : Dooms limits frames 1) (hs : finishCall frames f arguments = .ok s) : s.Doomed limits := by
  unfold finishCall at hs
  split at hs
  · cases hs
    exact doomed_finishOperand h _ _
  · cases hs
    exact doomed_finishOperand h _ _
  · cases hs

theorem doomed_readCloser {frames : List Frame} {e : Expr} {t : Token} {s : State}
    (h : Dooms limits frames e.depth) (hs : readCloser frames e t = .ok s) : s.Doomed limits := by
  unfold readCloser at hs
  split at hs
  · cases hs
    exact doomed_finishOperand h _ _
  · exact doomed_finishCall h hs
  · cases hs
    exact h
  all_goals cases hs

theorem doomed_readOperator {frames : List Frame} {e : Expr} {t : Token} {s : State}
    (h : Dooms limits frames e.depth) (hs : readOperator limits frames e t = .ok s) :
    s.Doomed limits := by
  -- what has been closed is the left operand of the next chain, and that chain is deeper
  have next {outer : List Frame} {left : Expr} (h : Dooms limits outer left.depth) :
      Dooms limits outer (max left.depth 1 + 1) := h.mono (by omega)
  unfold readOperator at hs
  split at hs
  · rw [eq_operand_of_nest hs]
    exact next h
  all_goals obtain ⟨closed, hclosed, hs⟩ := eq_ok_of_bind hs
  · cases hs
    exact .inr (next ((dooms_closeProduct hclosed).mpr h))
  · cases hs
    exact .inr (next ((dooms_closeProduct hclosed).mpr h))
  · cases hs
    exact .inr (next ((dooms_closeSum hclosed).mpr h))
  · cases hs
    exact .inr (next ((dooms_closeSum hclosed).mpr h))
  · exact doomed_readCloser ((dooms_closeSum hclosed).mpr h) hs

/-- **A step stays doomed.** -/
theorem State.Doomed.step {s s' : State} {t : Token} (h : s.Doomed limits)
    (hs : s.step limits t = .ok s') : s'.Doomed limits := by
  cases s with
  | operand frames => exact doomed_readOperand h hs
  | callee frames f column =>
    rw [State.step] at hs
    split at hs
    · cases hs
      exact h
    · cases hs
  | arguments frames f column =>
    rw [State.step] at hs
    split at hs
    · exact doomed_finishCall h hs
    · obtain ⟨inner, hnest, hs⟩ := eq_ok_of_bind hs
      rw [eq_of_nest hnest] at hs
      exact doomed_readOperand (h.cons _) hs
  | complete frames e bare =>
    simp only [State.step] at hs
    split at hs
    · cases hs
    · exact doomed_readOperator h hs

/-- A doomed state is not the end of a formula. -/
theorem State.Doomed.finish_ne_ok {s : State} (h : s.Doomed limits) (t : Expr) :
    s.finish limits ≠ .ok t := by
  intro hs
  cases s with
  | operand frames => cases hs
  | callee frames f column => cases hs
  | arguments frames f column =>
    obtain ⟨_, -, hs⟩ := eq_ok_of_bind hs
    cases hs
  | complete frames e bare =>
    obtain ⟨closed, hclosed, hs⟩ := eq_ok_of_bind hs
    have doomed := (dooms_closeSum hclosed).mpr h
    split at hs
    · exact doomed
    all_goals cases hs

/-- **A doomed state comes to no formula**, whatever tokens come after. -/
theorem State.Doomed.exists_error {s : State} (h : s.Doomed limits) (tokens : List Token) :
    ∃ cause, (s.run limits tokens >>= State.finish limits) = .error cause := by
  induction tokens generalizing s with
  | nil =>
    rw [State.run_nil, ok_bind]
    rcases hs : s.finish limits with cause | t
    · exact ⟨cause, rfl⟩
    · exact absurd hs (h.finish_ne_ok t)
  | cons t tokens ih =>
    rw [State.run_cons]
    rcases hs : s.step limits t with cause | next
    · exact ⟨cause, rfl⟩
    · exact ih (h.step hs)

/-! ### Refusals -/

/-- No token is refused: the reader **reads through** to the end of the tokens. -/
def ReadThrough (tokens : List Token) : Prop :=
  ∃ s, State.start.run .standard tokens = .ok s

/-- The tokens are refused because they **end too early**: an operand is missing after them, or the
parenthesis that closes another one, or the parenthesis of a call whose name is the last token. -/
inductive EndsEarly (tokens : List Token) : ParseError → Prop
  | operand : EndsEarly tokens .unexpectedEnd
  | closing (column : Nat) : EndsEarly tokens (.unclosedParen column)
  | call {before : List Token} {name : String} {column : Nat} (through : ReadThrough tokens)
    (last : tokens = before ++ [⟨.name name, column⟩]) : EndsEarly tokens (.missingCall name column)

/-- The tokens open the argument list of a function, what comes after **closes it at once**, and this
is the cause. -/
inductive ClosesEmptyCall : List Token → List Token → ParseError → Prop
  | intro (f : Callable) (before rest : List Token) (column opening closing : Nat) :
    ClosesEmptyCall (before ++ [⟨.name f.name, column⟩, ⟨.lparen, opening⟩])
      (⟨.rparen, closing⟩ :: rest) (.argumentCount f.name f.arity 0)

theorem ofTokensWithin_append {tokens : List Token} {s : State}
    (h : State.start.run limits tokens = .ok s) (more : List Token) :
    ofTokensWithin limits (tokens ++ more) =
      s.run limits more >>= State.finish limits := by
  rw [ofTokensWithin, State.run_append, h, ok_bind]

/-- A token that is refused is refused whatever comes after it. -/
theorem ofTokensWithin_append_of_error {tokens : List Token} {cause : ParseError}
    (h : State.start.run limits tokens = .error cause) (more : List Token) :
    ofTokensWithin limits (tokens ++ more) = .error cause := by
  rw [ofTokensWithin, State.run_append, h]
  rfl

/-- An argument list without arguments is refused for their number. -/
theorem finishCall_nil (frames : List Frame) (f : Callable) :
    finishCall frames f [] = .error (.argumentCount f.name f.arity 0) := by
  cases f <;> rfl

/-- The last two tokens before the first argument of a call. -/
theorem exists_opening_of_arguments {tokens : List Token} {frames : List Frame} {f : Callable}
    {column : Nat} (h : (State.arguments frames f column).Follows tokens) :
    ∃ before named opening,
      tokens = before ++ [⟨.name f.name, named⟩, ⟨.lparen, opening⟩] := by
  obtain ⟨ks, s, hkinds, name, -⟩ := h.spells
  have hname : f.name = s := Builtin.name_of_ofName? name
  obtain ⟨before, last, rfl, -, hlast⟩ := List.map_eq_append_iff.mp hkinds
  obtain ⟨t, rest, rfl, ht, hrest⟩ := List.map_eq_cons_iff.mp hlast
  obtain ⟨u, rfl, hu⟩ := List.map_eq_singleton_iff.mp hrest
  refine ⟨before, t.column, u.column, ?_⟩
  rw [hname, ← ht, ← hu]

/-- Where a first argument would be too deep, every token is refused for that, but the end of the
call. -/
theorem run_arguments_of_nest_eq_error {frames : List Frame} {f : Callable} {column : Nat}
    {cause : ParseError} (h : nest limits (.call f column []) frames = .error cause)
    (more : List Token) :
    ((State.arguments frames f column).run limits more >>= State.finish limits) = .error cause ∨
      ∃ closing rest, more = ⟨.rparen, closing⟩ :: rest ∧
        ((State.arguments frames f column).run limits more >>= State.finish limits) =
          .error (.argumentCount f.name f.arity 0) := by
  rcases more with _ | ⟨t, rest⟩
  · left
    rw [State.run_nil, ok_bind, State.finish, h]
    rfl
  · rw [State.run_cons, State.step]
    split
    · rename_i hkind
      right
      refine ⟨t.column, rest, by rw [← hkind], ?_⟩
      rw [finishCall_nil]
      rfl
    · left
      rw [h]
      rfl

/-! ### Causes that speak of the end -/

/-- The causes that **speak of the end** of the tokens. -/
def SpeaksOfEnd : ParseError → Prop
  | .unexpectedEnd | .unclosedParen _ => True
  | _ => False

theorem not_speaksOfEnd_finishCall (frames : List Frame) (f : Callable) (arguments : List Expr) :
    FailsOnly (¬SpeaksOfEnd ·) (finishCall frames f arguments) := by
  refine (failsOnly_finishCall frames f arguments).mono ?_
  rintro _ ⟨rfl, -⟩
  exact id

theorem not_speaksOfEnd_readOperand (frames : List Frame) (t : Token) :
    FailsOnly (¬SpeaksOfEnd ·) (readOperand limits frames t) := by
  exact failsOnly_readOperand id (fun _ _ _ => id) (fun _ _ => id) fun _ => id

theorem not_speaksOfEnd_readCloser (frames : List Frame) (e : Expr) (t : Token) :
    FailsOnly (¬SpeaksOfEnd ·) (readCloser frames e t) := by
  rw [readCloser.eq_def]
  split
  · exact .ok _
  · exact not_speaksOfEnd_finishCall _ _ _
  · exact .ok _
  all_goals exact .error id

theorem not_speaksOfEnd_readOperator (frames : List Frame) (e : Expr) (t : Token) :
    FailsOnly (¬SpeaksOfEnd ·) (readOperator limits frames e t) := by
  exact failsOnly_readOperator id id fun closed _ => not_speaksOfEnd_readCloser closed.1 closed.2 t

/-- **No token is refused** for a cause that speaks of the end. -/
theorem State.not_speaksOfEnd_step (s : State) (t : Token) :
    FailsOnly (¬SpeaksOfEnd ·) (s.step limits t) := by
  cases s with
  | operand frames => exact not_speaksOfEnd_readOperand frames t
  | callee frames f column =>
    rw [State.step]
    split
    · exact .ok _
    · exact .error id
  | arguments frames f column =>
    rw [State.step]
    split
    · exact not_speaksOfEnd_finishCall _ _ _
    · exact ((failsOnly_nest _ _).of_eq id).bind fun inner =>
        not_speaksOfEnd_readOperand inner t
  | complete frames e bare =>
    simp only [State.step]
    split
    · exact .error id
    · exact not_speaksOfEnd_readOperator frames e t

theorem readThrough_of_speaksOfEnd {tokens : List Token} {cause : ParseError}
    (refused : ofTokens tokens = .error cause) (h : SpeaksOfEnd cause) : ReadThrough tokens := by
  rcases hrun : State.start.run .standard tokens with cause' | s
  · rw [ofTokens, ofTokensWithin, hrun] at refused
    obtain ⟨done, t, after, s, -, -, hstep⟩ := State.exists_step_of_run_eq_error hrun
    exact absurd (Except.error.inj refused ▸ h) (s.not_speaksOfEnd_step t cause' hstep)
  · exact ⟨s, hrun⟩

/-! ### What comes after -/

/-- The end of the tokens is refused since they end too early, since a chain is too deep, or since
the first argument of a call would be. -/
theorem State.Follows.finish_eq_error {s : State} {tokens : List Token} {cause : ParseError}
    (h : s.Follows tokens) (through : ReadThrough tokens)
    (refused : s.finish .standard = .error cause) :
    EndsEarly tokens cause ∨ (s.Doomed .standard ∧ cause = .tooDeep 1024) ∨
      ∃ frames f column, s = .arguments frames f column ∧
        nest .standard (.call f column []) frames = .error cause := by
  cases s with
  | operand frames =>
    cases refused
    exact .inl .operand
  | callee frames f column =>
    cases refused
    obtain ⟨before, last⟩ := h.remembers
    exact .inl (.call through last)
  | arguments frames f column =>
    rcases hnest : nest .standard (.call f column []) frames with cause' | inner
    · rw [State.finish, hnest] at refused
      cases refused
      exact .inr (.inr ⟨frames, f, column, rfl, hnest⟩)
    · rw [State.finish, hnest] at refused
      cases refused
      exact .inl .operand
  | complete frames e bare =>
    rcases hclosed : closeSum .standard frames e with cause' | closed
    · rw [State.finish, hclosed] at refused
      cases refused
      exact .inr (.inl (dooms_of_closeSum_eq_error hclosed))
    · rw [State.finish, hclosed, ok_bind] at refused
      left
      split at refused
      · cases refused
      · cases refused
        exact .closing _
      · cases refused
        exact .closing _
      · cases refused
        exact .operand

/-- **Refusals are permanent** unless the tokens merely end too early, and then all of them were read.

Take tokens that are refused for another reason, and any tokens after them. All of them together are
refused as well, and for the same cause but in two cases. If a chain is too deep, another cause may
come first. If the tokens end where the first argument of a call would stand too deep, and what comes
after closes the call at once, the cause is that the call has no argument. -/
theorem refusals_permanent {tokens : List Token} {cause : ParseError}
    (refused : ofTokens tokens = .error cause) :
    (EndsEarly tokens cause → ReadThrough tokens) ∧
    (¬EndsEarly tokens cause → ∀ more, ∃ cause', ofTokens (tokens ++ more) = .error cause' ∧
      (cause' = cause ∨ cause = .tooDeep 1024 ∨
        cause = .tooDeep 256 ∧ ClosesEmptyCall tokens more cause')) := by
  constructor
  · intro early
    cases early with
    | operand => exact readThrough_of_speaksOfEnd refused trivial
    | closing column => exact readThrough_of_speaksOfEnd refused trivial
    | call through last => exact through
  intro final more
  rcases hrun : State.start.run .standard tokens with cause' | s
  · have same : cause' = cause := by
      rw [ofTokens, ofTokensWithin, hrun] at refused
      exact Except.error.inj refused
    exact ⟨cause', ofTokensWithin_append_of_error hrun more, .inl same⟩
  have follows := follows_of_run_start hrun
  rw [ofTokens, ofTokensWithin, hrun, ok_bind] at refused
  rw [ofTokens, ofTokensWithin_append hrun]
  rcases follows.finish_eq_error ⟨s, hrun⟩ refused with
    early | ⟨doomed, deep⟩ | ⟨frames, f, column, rfl, hnest⟩
  · exact absurd early final
  · obtain ⟨cause', hcause'⟩ := doomed.exists_error more
    exact ⟨cause', hcause', .inr (.inl deep)⟩
  · rcases run_arguments_of_nest_eq_error hnest more with same | ⟨closing, rest, rfl, replaced⟩
    · exact ⟨cause, same, .inl rfl⟩
    · obtain ⟨before, named, opening, rfl⟩ := exists_opening_of_arguments follows
      exact ⟨_, replaced, .inr (.inr ⟨failsOnly_nest _ _ cause hnest, .intro ..⟩)⟩

/-! ### A call at the limit -/

/-- The tokens of `((…(sin(` with `n` parentheses before the name. -/
def callInGroups (n : Nat) : List Token :=
  (List.range' 1 n).map (⟨.lparen, ·⟩) ++ [⟨.name "sin", n + 1⟩, ⟨.lparen, n + 4⟩]

/-- **An empty call at the limit**: as long as the call is open, an argument in it would be too deep,
and when it is closed at once the cause is another one. -/
theorem empty_call_at_limit :
    ofTokens (callInGroups 255) = .error (.tooDeep 256) ∧
      ¬EndsEarly (callInGroups 255) (.tooDeep 256) ∧
      ofTokens (callInGroups 255 ++ [⟨.rparen, 260⟩]) = .error (.argumentCount "sin" 1 0) := by
  refine ⟨by decide +kernel, ?_, by decide +kernel⟩
  rintro ⟨⟩

/-- A token that is refused, and the call at the limit, with tokens after them. -/
theorem refusals_permanent_call :
    (ofTokens [⟨.name "x", 1⟩, ⟨.comma, 2⟩] = .error (.unexpectedToken .comma 2 .operatorOrEnd) ∧
      ∃ cause, ofTokens ([⟨.name "x", 1⟩, ⟨.comma, 2⟩] ++ [⟨.rparen, 3⟩]) = .error cause ∧
        cause = .unexpectedToken .comma 2 .operatorOrEnd) ∧
    (ofTokens [⟨.lparen, 1⟩] = .error .unexpectedEnd ∧ ReadThrough [⟨.lparen, 1⟩]) ∧
    ofTokens (callInGroups 255) = .error (.tooDeep 256) ∧
      ∃ cause, ofTokens (callInGroups 255 ++ [⟨.rparen, 260⟩]) = .error cause := by
  have comma : ofTokens [⟨.name "x", 1⟩, ⟨.comma, 2⟩] =
      .error (.unexpectedToken .comma 2 .operatorOrEnd) := by decide +kernel
  have early : ofTokens [⟨.lparen, 1⟩] = .error .unexpectedEnd := by decide +kernel
  have deep : ofTokens (callInGroups 255) = .error (.tooDeep 256) := by decide +kernel
  obtain ⟨cause, hcause, kept⟩ := (refusals_permanent comma).2 (by rintro ⟨⟩) [⟨.rparen, 3⟩]
  obtain ⟨cause', hcause', -⟩ := (refusals_permanent deep).2 (by rintro ⟨⟩) [⟨.rparen, 260⟩]
  refine ⟨⟨comma, cause, hcause, ?_⟩, ⟨early, (refusals_permanent early).1 .operand⟩, deep, cause',
    hcause'⟩
  rcases kept with same | deep | ⟨deep, -⟩
  · exact same
  · cases deep
  · cases deep

end Expr

end CurvePlot
