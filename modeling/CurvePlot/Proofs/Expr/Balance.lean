import CurvePlot.Proofs.Expr.Diagnosis

/-!
# What is said of parentheses

Parentheses have **partners** by counting: parentheses balance if there are equally many opening and
closing ones and no prefix has more closing ones than opening ones, and two parentheses are partners
if what stands between them balances. Tokens in which every closing parenthesis has a partner are
balanced parts with the open parentheses between them (`LeavesOpen`), and these open parentheses are
the ones that the reader is inside of (`openParens`). So the number of its open frames is the
difference of the two counts, and it never has to close a frame when none is open (`Paired`).

What the reader says of a parenthesis follows. It calls a closing one unmatched when it is inside of
none, and unexpected when it is inside of some; and it calls the innermost one unclosed that is open
when there are no more tokens. After it stand balanced tokens only, so there is no open one after it.
-/

namespace CurvePlot

namespace Expr

open Token (Kind)

variable {limits : Limits}

/-! ### Balanced tokens -/

/-- How many parentheses the tokens open. -/
def openings (tokens : List Token) : Nat :=
  tokens.countP (·.kind = .lparen)

/-- How many parentheses the tokens close. -/
def closings (tokens : List Token) : Nat :=
  tokens.countP (·.kind = .rparen)

/-- **Every closing parenthesis has a partner**: no prefix closes more parentheses than it opens. -/
def Paired (tokens : List Token) : Prop :=
  ∀ before, before <+: tokens → closings before ≤ openings before

/-- The parentheses among the tokens **balance**. -/
structure Balanced (tokens : List Token) : Prop where
  paired : Paired tokens
  settled : closings tokens = openings tokens

/-- Whether an opening parenthesis before these tokens is **closed** in them. -/
def IsClosedIn (after : List Token) : Prop :=
  ∃ inner closing rest, after = inner ++ ⟨.rparen, closing⟩ :: rest ∧ Balanced inner

/-- Whether a closing parenthesis after these tokens was **opened** in them. -/
def IsOpenedIn (before : List Token) : Prop :=
  ∃ outer opening inner, before = outer ++ ⟨.lparen, opening⟩ :: inner ∧ Balanced inner

@[simp] theorem openings_nil : openings [] = 0 := rfl

@[simp] theorem closings_nil : closings [] = 0 := rfl

@[simp] theorem openings_append (ts us : List Token) :
    openings (ts ++ us) = openings ts + openings us :=
  List.countP_append

@[simp] theorem closings_append (ts us : List Token) :
    closings (ts ++ us) = closings ts + closings us :=
  List.countP_append

@[simp] theorem openings_cons (t : Token) (ts : List Token) :
    openings (t :: ts) = openings ts + if t.kind = .lparen then 1 else 0 := by
  simp [openings, List.countP_cons]

@[simp] theorem closings_cons (t : Token) (ts : List Token) :
    closings (t :: ts) = closings ts + if t.kind = .rparen then 1 else 0 := by
  simp [closings, List.countP_cons]

theorem paired_nil : Paired [] := by
  intro before h
  rw [List.prefix_nil.mp h, closings_nil, openings_nil]

theorem Paired.le {ts : List Token} (h : Paired ts) : closings ts ≤ openings ts :=
  h ts (List.prefix_refl ts)

theorem Paired.of_append {ts us : List Token} (h : Paired (ts ++ us)) : Paired ts :=
  fun before hbefore => h before (hbefore.trans (List.prefix_append ts us))

theorem paired_concat_iff {ts : List Token} {t : Token} :
    Paired (ts ++ [t]) ↔ Paired ts ∧ closings (ts ++ [t]) ≤ openings (ts ++ [t]) := by
  refine ⟨fun h => ⟨h.of_append, h.le⟩, fun ⟨h, hle⟩ before hbefore => ?_⟩
  rcases List.prefix_concat_iff.mp hbefore with rfl | hbefore
  · exact hle
  · exact h before hbefore

theorem Paired.append {ts us : List Token} (h : Paired ts) (h' : Paired us) :
    Paired (ts ++ us) := by
  induction us using List.reverseRecOn with
  | nil => rwa [List.append_nil]
  | append_singleton us t ih =>
    rw [← List.append_assoc, paired_concat_iff]
    refine ⟨ih h'.of_append, ?_⟩
    have hts := h.le
    have hus := h'.le
    simp only [openings_append, closings_append] at hus ⊢
    omega

namespace Balanced

theorem nil : Balanced [] := ⟨paired_nil, rfl⟩

theorem append {ts us : List Token} (h : Balanced ts) (h' : Balanced us) : Balanced (ts ++ us) where
  paired := h.paired.append h'.paired
  settled := by rw [closings_append, openings_append, h.settled, h'.settled]

theorem singleton {t : Token} (h : isParen t.kind = false) : Balanced [t] := by
  have hopen : t.kind ≠ .lparen := fun hkind => by simp [hkind, isParen] at h
  have hclose : t.kind ≠ .rparen := fun hkind => by simp [hkind, isParen] at h
  have settled : closings [t] = openings [t] := by simp [hopen, hclose]
  exact ⟨paired_concat_iff.mpr ⟨paired_nil, settled.le⟩, settled⟩

/-- **Partners** around balanced tokens. -/
theorem enclose {inner : List Token} (h : Balanced inner) (opening closing : Nat) :
    Balanced (⟨.lparen, opening⟩ :: (inner ++ [⟨.rparen, closing⟩])) := by
  have settled := h.settled
  refine ⟨fun before hbefore => ?_, by simp; omega⟩
  rcases before with _ | ⟨t, before⟩
  · exact Nat.le_refl 0
  obtain ⟨rfl, hinside⟩ := List.cons_prefix_cons.mp hbefore
  rcases List.prefix_concat_iff.mp hinside with rfl | hinside
  · simp
    omega
  · have hle := h.paired before hinside
    simp
    omega

end Balanced

/-- A token that closes more than was open is a closing parenthesis. -/
theorem eq_rparen_of_excess {ts : List Token} {t : Token} (h : closings ts ≤ openings ts)
    (h' : openings (ts ++ [t]) < closings (ts ++ [t])) :
    t = ⟨.rparen, t.column⟩ ∧ closings ts = openings ts := by
  obtain ⟨kind, column⟩ := t
  simp only [openings_append, closings_append, openings_cons, closings_cons, openings_nil,
    closings_nil] at h'
  by_cases hkind : kind = .rparen
  · subst hkind
    simp at h'
    exact ⟨rfl, by omega⟩
  · rw [if_neg hkind] at h'
    omega

/-- **The first closing parenthesis without a partner** stands after balanced tokens. -/
theorem isClosedIn_of_not_paired {ts : List Token} (h : ¬Paired ts) : IsClosedIn ts := by
  induction ts using List.reverseRecOn with
  | nil => exact absurd paired_nil h
  | append_singleton ts t ih =>
    by_cases hts : Paired ts
    · have hexcess := not_le.mp fun hle => h (paired_concat_iff.mpr ⟨hts, hle⟩)
      obtain ⟨ht, settled⟩ := eq_rparen_of_excess hts.le hexcess
      exact ⟨ts, t.column, [], by rw [← ht], hts, settled⟩
    · obtain ⟨inner, closing, rest, rfl, hinner⟩ := ih hts
      exact ⟨inner, closing, rest ++ [t], by simp, hinner⟩

theorem Paired.not_isClosedIn {ts : List Token} (h : Paired ts) : ¬IsClosedIn ts := by
  rintro ⟨inner, closing, rest, rfl, hinner⟩
  have hle := h (inner ++ [⟨.rparen, closing⟩]) ⟨rest, by simp⟩
  have settled := hinner.settled
  simp at hle
  omega

/-- In balanced tokens every opening parenthesis has a partner. -/
theorem Balanced.isClosedIn {before after : List Token} {opening : Nat}
    (h : Balanced (before ++ ⟨.lparen, opening⟩ :: after)) : IsClosedIn after := by
  refine isClosedIn_of_not_paired fun hafter => ?_
  have hbefore := h.paired.of_append.le
  have hle := hafter.le
  have settled := h.settled
  simp at settled
  omega

/-- A closing parenthesis after balanced tokens has no partner. -/
theorem Balanced.not_isOpenedIn {before : List Token} (h : Balanced before) :
    ¬IsOpenedIn before := by
  rintro ⟨outer, opening, inner, rfl, hinner⟩
  exact hinner.paired.not_isClosedIn h.isClosedIn

/-! ### What tokens leave open -/

/-- The tokens **leave parentheses open** at the columns, the innermost first: around every one of
them and between them everything balances. -/
inductive LeavesOpen : List Token → List Nat → Prop
  | none {ts : List Token} (balanced : Balanced ts) : LeavesOpen ts []
  | more {ts us : List Token} {columns : List Nat} (column : Nat) (before : LeavesOpen ts columns)
    (balanced : Balanced us) : LeavesOpen (ts ++ ⟨.lparen, column⟩ :: us) (column :: columns)

theorem LeavesOpen.append {ts us : List Token} {columns : List Nat} (h : LeavesOpen ts columns)
    (h' : Balanced us) : LeavesOpen (ts ++ us) columns := by
  cases h with
  | none balanced => exact .none (balanced.append h')
  | more column before balanced =>
    rw [List.append_assoc, List.cons_append]
    exact .more column before (balanced.append h')

/-- The number of open parentheses is the difference of the counts. -/
theorem LeavesOpen.length_add {ts : List Token} {columns : List Nat} (h : LeavesOpen ts columns) :
    columns.length + closings ts = openings ts := by
  induction h with
  | none balanced => simp [balanced.settled]
  | more column _ balanced ih =>
    have settled := balanced.settled
    simp
    omega

/-- **What is left open** lies between balanced parts. -/
theorem leavesOpen_openParens {ts : List Token} (h : Paired ts) :
    LeavesOpen ts (openParens ts) := by
  induction ts using List.reverseRecOn with
  | nil => exact .none .nil
  | append_singleton ts t ih =>
    obtain ⟨hts, hle⟩ := paired_concat_iff.mp h
    have before := ih hts
    rw [openParens_append_singleton]
    cases hparen : isParen t.kind with
    | false =>
      rw [openAfter_of_isParen hparen]
      exact before.append (.singleton hparen)
    | true =>
      obtain ⟨kind, column⟩ := t
      cases kind with
      | lparen => exact .more column before .nil
      | rparen =>
        -- a parenthesis is open, since the new one has a partner
        have hlength := before.length_add
        rw [openAfter_of_rparen rfl]
        generalize openParens ts = columns at before hlength
        cases before with
        | none balanced =>
          simp at hle hlength
          omega
        | more opening outer balanced =>
          rw [List.append_assoc]
          exact outer.append (balanced.enclose opening column)
      | _ => cases hparen

/-! ### Every state of the reader -/

theorem any_isOpen_iff {frames : List Frame} :
    frames.any Frame.isOpen = true ↔ openColumns frames ≠ [] := by
  induction frames with
  | nil => simp [openColumns]
  | cons frame frames ih =>
    cases frame <;> simp_all [Frame.isOpen, openColumns, Frame.column?]

/-- The reader takes a closing parenthesis only if it is inside of one. -/
theorem openColumns_ne_nil_of_readCloser {frames : List Frame} {e : Expr} {t : Token} {s : State}
    (h : readCloser frames e t = .ok s) (ht : t.kind = .rparen) : openColumns frames ≠ [] := by
  unfold readCloser at h
  rw [ht] at h
  split at h <;> simp_all [openColumns, Frame.column?]

theorem State.openColumns_ne_nil {s s' : State} {t : Token} (h : s.step limits t = .ok s')
    (ht : t.kind = .rparen) : s.openColumns ≠ [] := by
  obtain ⟨kind, column⟩ := t
  subst ht
  cases s with
  | operand frames =>
    simp only [State.step, readOperand] at h
    split at h <;> cases h
  | callee frames f column =>
    simp only [State.step] at h
    split at h
    · rename_i hkind
      cases hkind
    · cases h
  | arguments frames f column => exact List.cons_ne_nil _ _
  | complete frames e bare =>
    rw [step_closer (.inl rfl)] at h
    obtain ⟨closed, hclosed, h⟩ := eq_ok_of_bind h
    rw [State.openColumns, ← openColumns_closeSum hclosed]
    exact openColumns_ne_nil_of_readCloser h rfl

/-- **The reader never closes more than is open.** -/
theorem paired_of_run_start {s : State} {tokens : List Token}
    (h : State.start.run limits tokens = .ok s) : Paired tokens := by
  induction tokens using List.reverseRecOn generalizing s with
  | nil => exact paired_nil
  | append_singleton tokens t ih =>
    rw [State.run_append] at h
    obtain ⟨before, hbefore, h⟩ := eq_ok_of_bind h
    rw [State.run_singleton] at h
    have paired := ih hbefore
    refine paired_concat_iff.mpr ⟨paired, not_lt.mp fun hexcess => ?_⟩
    obtain ⟨ht, settled⟩ := eq_rparen_of_excess paired.le hexcess
    have hopen := State.openColumns_ne_nil h (congrArg Token.kind ht)
    have hlength := (leavesOpen_openParens paired).length_add
    rw [openColumns_of_run_start hbefore] at hopen
    have := List.length_pos_iff.mpr hopen
    omega

/-- What a state is inside of, the tokens before it leave open. -/
theorem leavesOpen_of_run_start {s : State} {tokens : List Token}
    (h : State.start.run limits tokens = .ok s) : LeavesOpen tokens s.openColumns := by
  rw [openColumns_of_run_start h]
  exact leavesOpen_openParens (paired_of_run_start h)

/-! ### What causes say of parentheses -/

/-- What a cause says of the parentheses, when it is given for the token `t`, inside of the
parentheses at the columns. -/
def SaysAt (columns : List Nat) (t : Token) : ParseError → Prop
  | .unmatchedParen column => t = ⟨.rparen, column⟩ ∧ columns = []
  | .unexpectedToken .rparen column _ => t = ⟨.rparen, column⟩ ∧ columns ≠ []
  | .unclosedParen _ => False
  | _ => True

/-- What a cause says of the parentheses, when it is given at the end. -/
def SaysAtEnd (columns : List Nat) : ParseError → Prop
  | .unmatchedParen _ => False
  | .unexpectedToken _ _ _ => False
  | .unclosedParen column => columns.head? = some column
  | _ => True

theorem saysAt_unexpected {columns : List Nat} {t : Token} (h : t.kind ≠ .rparen)
    (expected : ParseError.Expectation) : SaysAt columns t (unexpected t expected) := by
  obtain ⟨kind, column⟩ := t
  cases kind with
  | rparen => exact absurd rfl h
  | _ => trivial

theorem saysAt_finishCall {columns : List Nat} {t : Token} (frames : List Frame) (f : Callable)
    (arguments : List Expr) : FailsOnly (SaysAt columns t) (finishCall frames f arguments) := by
  refine (failsOnly_finishCall frames f arguments).mono ?_
  rintro _ ⟨rfl, -⟩
  trivial

theorem saysAt_readOperand (frames : List Frame) (t : Token) :
    FailsOnly (SaysAt (openColumns frames) t) (readOperand limits frames t) := by
  refine failsOnly_readOperand trivial (fun _ _ _ => trivial) ?_ ?_
  · intro hkind hnone
    refine ⟨hkind ▸ rfl, not_not.mp fun hne => ?_⟩
    exact Bool.eq_false_iff.mp hnone (any_isOpen_iff.mpr hne)
  · intro hopen
    by_cases hkind : t.kind = .rparen
    · rw [unexpected, hkind]
      exact ⟨hkind ▸ rfl, any_isOpen_iff.mp (hopen hkind)⟩
    · exact saysAt_unexpected hkind _

/-- A phrase that is as long as it can be stands directly inside of a parenthesis or of nothing, so a
closing parenthesis after it is the end of something or is unmatched. -/
theorem saysAt_readCloser {frames : List Frame} (h : Admits frames .sum) (e : Expr) (t : Token) :
    FailsOnly (SaysAt (openColumns frames) t) (readCloser frames e t) := by
  rw [readCloser.eq_def]
  split
  · exact .ok _
  · exact saysAt_finishCall _ _ _
  · exact .ok _
  · rename_i hkind
    exact .error ⟨hkind ▸ rfl, rfl⟩
  · rename_i hparen
    exact .error (saysAt_unexpected hparen _)
  · rename_i frames _ _ hnil hgroup hcall _ _
    refine .error (saysAt_unexpected (fun hkind => ?_) _)
    rcases frames with _ | ⟨frame, outer⟩
    · exact hnil rfl
    · cases frame with
      | group column => exact hgroup column outer rfl hkind
      | call f column arguments => exact hcall f column arguments outer rfl hkind
      | _ => simp [Admits, slot, Phrase.rank] at h

theorem saysAt_readOperator {frames : List Frame} {e : Expr} {ts : List Kind} (t : Token)
    (h : Holds .signed frames e ts) (ha : Admits frames .power) :
    FailsOnly (SaysAt (openColumns frames) t) (readOperator limits frames e t) := by
  refine failsOnly_readOperator trivial trivial fun closed hclosed => ?_
  rw [← openColumns_closeSum hclosed]
  exact saysAt_readCloser (h.closeSum ha hclosed).2 closed.2 t

/-- **One token** is refused for a cause that says what parentheses the reader is inside of. -/
theorem State.Follows.saysAt_step {s : State} {done : List Token} (h : s.Follows done) (t : Token) :
    FailsOnly (SaysAt s.openColumns t) (s.step limits t) := by
  cases s with
  | operand frames => exact saysAt_readOperand frames t
  | callee frames f column =>
    rw [State.step]
    split
    · exact .ok _
    · exact .error trivial
  | arguments frames f column =>
    rw [State.step]
    split
    · exact saysAt_finishCall _ _ _
    · refine ((failsOnly_nest _ _).of_eq trivial).bind_of_ok fun inner hnest => ?_
      rw [eq_of_nest hnest]
      exact saysAt_readOperand _ t
  | complete frames e bare =>
    simp only [State.step]
    split
    · exact .error trivial
    · exact saysAt_readOperator t h.spells.1 h.spells.2

/-- **The end of the tokens** is refused for a cause that says what parenthesis is open. -/
theorem State.saysAtEnd_finish (s : State) :
    FailsOnly (SaysAtEnd s.openColumns) (s.finish limits) := by
  cases s with
  | operand frames => exact .error trivial
  | callee frames f column => exact .error trivial
  | arguments frames f column =>
    exact ((failsOnly_nest _ _).of_eq trivial).bind fun _ => .error trivial
  | complete frames e bare =>
    refine ((failsOnly_closeSum frames e).of_eq trivial).bind_of_ok fun closed hclosed => ?_
    rw [State.openColumns, ← openColumns_closeSum hclosed]
    split
    · exact .ok _
    · exact .error (by rw [openColumns_cons_some rfl]; rfl)
    · exact .error (by rw [openColumns_cons_some rfl]; rfl)
    · exact .error trivial

/-! ### All tokens -/

/-- A run that fails does so at one of its tokens. -/
theorem State.exists_step_of_run_eq_error {s : State} {tokens : List Token} {cause : ParseError}
    (h : s.run limits tokens = .error cause) : ∃ done t after s',
      tokens = done ++ t :: after ∧ s.run limits done = .ok s' ∧ s'.step limits t = .error cause := by
  induction tokens generalizing s with
  | nil => cases h
  | cons t tokens ih =>
    rw [State.run_cons] at h
    rcases hstep : s.step limits t with cause' | next
    · rw [hstep] at h
      exact ⟨[], t, tokens, s, rfl, rfl, hstep.trans h⟩
    · rw [hstep] at h
      obtain ⟨done, t', after, s', rfl, hrun, hrefused⟩ := ih h
      refine ⟨t :: done, t', after, s', rfl, ?_, hrefused⟩
      rw [State.run_cons, hstep]
      exact hrun

/-- **Where tokens are refused**: at one of them or at the end, and the cause says of the parentheses
what the tokens before leave open. -/
theorem saysAt_of_ofTokens {tokens : List Token} {cause : ParseError}
    (h : ofTokensWithin limits tokens = .error cause) :
    (∃ done t after, tokens = done ++ t :: after ∧ Paired done ∧ SaysAt (openParens done) t cause) ∨
      (∃ s, State.start.run limits tokens = .ok s) ∧ Paired tokens ∧
        SaysAtEnd (openParens tokens) cause := by
  rcases hrun : State.start.run limits tokens with cause' | s
  · rw [ofTokensWithin, hrun] at h
    cases Except.error.inj h
    obtain ⟨done, t, after, s, rfl, hdone, hstep⟩ := State.exists_step_of_run_eq_error hrun
    have said := (follows_of_run_start hdone).saysAt_step t cause hstep
    rw [openColumns_of_run_start hdone] at said
    exact .inl ⟨done, t, after, rfl, paired_of_run_start hdone, said⟩
  · rw [ofTokensWithin, hrun] at h
    have said := s.saysAtEnd_finish cause h
    rw [openColumns_of_run_start hrun] at said
    exact .inr ⟨⟨s, rfl⟩, paired_of_run_start hrun, said⟩

/-- A source whose tokens are refused. -/
theorem ofTokens_eq_error_of_parse {source : String} {tokens : List Token} {cause : ParseError}
    (hscan : Token.scan source = .ok tokens) (h : parse source = .error cause)
    (hempty : cause ≠ .empty) : ofTokens tokens = .error cause := by
  rcases eq_error_of_parse h with hrefused | ⟨-, rfl⟩ | ⟨tokens', hscan', hrefused⟩
  · rw [hscan] at hrefused
    cases hrefused
  · exact absurd rfl hempty
  · obtain rfl : tokens' = tokens := Except.ok.inj (hscan'.symm.trans hscan)
    exact hrefused

/-- **An unmatched parenthesis** stands after balanced tokens. -/
theorem balanced_of_unmatchedParen {tokens : List Token} {column : Nat}
    (h : ofTokensWithin limits tokens = .error (.unmatchedParen column)) :
    ∃ before after, tokens = before ++ ⟨.rparen, column⟩ :: after ∧ Balanced before := by
  rcases saysAt_of_ofTokens h with ⟨done, t, after, rfl, paired, rfl, hnone⟩ | ⟨-, -, said⟩
  · refine ⟨done, after, rfl, paired, ?_⟩
    have hlength := (leavesOpen_openParens paired).length_add
    rwa [hnone, List.length_nil, Nat.zero_add] at hlength
  · exact said.elim

/-- **An unexpected parenthesis** that closes something was opened before. -/
theorem isOpenedIn_of_unexpectedToken {tokens : List Token} {column : Nat}
    {expected : ParseError.Expectation}
    (h : ofTokensWithin limits tokens = .error (.unexpectedToken .rparen column expected)) :
    ∃ before after, tokens = before ++ ⟨.rparen, column⟩ :: after ∧ IsOpenedIn before := by
  rcases saysAt_of_ofTokens h with ⟨done, t, after, rfl, paired, rfl, hsome⟩ | ⟨-, -, said⟩
  · refine ⟨done, after, rfl, ?_⟩
    have hopen := leavesOpen_openParens paired
    generalize openParens done = columns at hopen hsome
    cases hopen with
    | none _ => exact absurd rfl hsome
    | more opening _ balanced => exact ⟨_, opening, _, rfl, balanced⟩
  · exact said.elim

/-- **An unclosed parenthesis** has only balanced tokens after it, all of which were read. -/
theorem balanced_of_unclosedParen {tokens : List Token} {column : Nat}
    (h : ofTokensWithin limits tokens = .error (.unclosedParen column)) :
    (∃ s, State.start.run limits tokens = .ok s) ∧ Paired tokens ∧
      ∃ before after, tokens = before ++ ⟨.lparen, column⟩ :: after ∧ Balanced after := by
  rcases saysAt_of_ofTokens h with ⟨_, _, _, _, _, said⟩ | ⟨hrun, paired, said⟩
  · exact said.elim
  · refine ⟨hrun, paired, ?_⟩
    have hopen := leavesOpen_openParens paired
    rw [SaysAtEnd] at said
    generalize openParens tokens = columns at hopen said
    cases hopen with
    | none _ => cases said
    | more opening _ balanced =>
      cases said
      exact ⟨_, _, rfl, balanced⟩

end Expr

end CurvePlot
