import CurvePlot.Proofs.Expr.Balance
import CurvePlot.Proofs.Expr.Descent.Settles
import CurvePlot.Proofs.Token.Positions

/-!
# Recursive descent reads what the reader reads

Each rule reads its kind of phrase, if the rules for the phrases inside of it do: chains of operators
from their operands (`IsChain`), calls and parentheses from sums, signed operands from operands, powers
from signed operands. A rule for a phrase that begins later has fewer tokens ahead, so with enough open
calls for the tokens all of them read what they are to read (`reads_of_calls`).

The numbers that the rules count are those of the frames: the rules nested in each other are the levels
of the reader, and the open parentheses are its open columns. So no number is counted down from zero,
and every argument of a call that has as many as its function takes is there (`ofTokens?_eq`).
-/

namespace CurvePlot

namespace Expr

open Token (Kind)

variable {limits : Limits}

namespace Descent

open Rule (fail)

/-! ### Phrases -/

/-- The cursor of a rule at the tokens `ts` inside of some frames, at a depth. -/
def cursor (frames : List Frame) (depth : Nat) (ts : List Token) : Cursor :=
  ⟨ts, depth, (openColumns frames).length⟩

/-- A rule **reads signed operands**, and all that is inside of them, up to some length. -/
def ReadsSigned (limits : Limits) (n : Nat) (rule : Rule Expr) : Prop :=
  ∀ (frames : List Frame) (ts : List Token), ts.length ≤ n → level frames ≤ limits.nesting →
    Settles (conclude limits (.operand frames) ts) (level frames) (openColumns frames).length
      (fun e us => us.length < ts.length ∧
        conclude limits (.operand frames) ts = conclude limits (finishOperand frames e none) us)
      (rule (cursor frames (level frames) ts)).result

/-- A rule **reads phrases** of some kind, up to some length. -/
def ReadsPhrase (limits : Limits) (n : Nat) (c : Phrase) (rule : Rule Expr) : Prop :=
  ∀ (frames : List Frame) (ts : List Token), ts.length ≤ n → Admits frames c →
    Settles (enter limits frames ts) (level frames - 1) (openColumns frames).length
      (fun e us => us.length < ts.length ∧ level frames ≤ limits.nesting ∧ Stops c us ∧
        enter limits frames ts = conclude limits (.complete frames e none) us)
      (rule (cursor frames (level frames - 1) ts)).result

/-! ### Chains -/

/-- **Chains** of some operators, that are phrases of the kind `whole` made of phrases of the kind
`part`, and wait for a right operand in frames of their own. -/
structure IsChain (limits : Limits) (op? : Kind → Option BinaryOp)
    (frame : BinaryOp → Expr → Frame) (part whole : Phrase) : Prop where
  rank_le : whole.rank ≤ part.rank
  admits (op : BinaryOp) (left : Expr) (frames : List Frame) :
    Admits (frame op left :: frames) part
  level_eq (op : BinaryOp) (left : Expr) (frames : List Frame) :
    level (frame op left :: frames) = level frames
  column?_eq (op : BinaryOp) (left : Expr) : (frame op left).column? = none
  step {frames : List Frame} (h : Admits frames whole) {t : Token} {op : BinaryOp}
    (ht : op? t.kind = some op) (e : Expr) :
    (State.complete frames e none).step limits t = .ok (.operand (frame op e :: frames))
  join {frames : List Frame} (h : Admits frames whole) (op : BinaryOp) (left e : Expr)
    {ts : List Token} (hts : Stops part ts) :
    conclude limits (.complete (frame op left :: frames) e none) ts =
      chain limits op left e >>= fun joined =>
        conclude limits (.complete frames joined none) ts
  stops {ts : List Token} (h : Stops part ts) (hop : ∀ t ∈ ts.head?, op? t.kind = none) :
    Stops whole ts

theorem isChain_product : IsChain limits productOp? .product .power .product where
  rank_le := by decide
  admits _ _ _ := Nat.le_refl _
  level_eq := level_product
  column?_eq _ _ := rfl
  step h t op ht e := by
    rw [step_productOp ht, State.close, closeProduct_of_admits h, ok_bind]
  join h op left e _ hts := conclude_product h op left e hts
  stops h hop t ht := by
    have hcaret := h t ht
    have hproduct := hop t ht
    simp_all [goesOnWith]

theorem isChain_sum : IsChain limits sumOp? .sum .product .sum where
  rank_le := by decide
  admits _ _ _ := Nat.le_refl _
  level_eq := level_sum
  column?_eq _ _ := rfl
  step h t op ht e := by
    rw [step_sumOp ht, State.close, closeSum_of_admits h, ok_bind]
  join h op left e _ hts := conclude_sum h op left e hts
  stops h hop t ht := by
    have hproduct := h t ht
    have hsum := hop t ht
    simp_all [goesOnWith]

section Chain

variable {op? : Kind → Option BinaryOp} {frame : BinaryOp → Expr → Frame} {part whole : Phrase}
  {rule : Rule Expr} {n rounds : Nat}

/-- The operands after the first one are read and joined, one in each round. -/
theorem IsChain.settles_chainRest (hchain : IsChain limits op? frame part whole)
    (reads : ReadsPhrase limits n part rule) {frames : List Frame} (h : Admits frames whole)
    (hlevel : level frames ≤ limits.nesting) (left : Expr) {ts : List Token}
    (hrounds : ts.length < rounds) (hn : ts.length ≤ n) (hts : Stops part ts) :
    Settles (conclude limits (.complete frames left none) ts) (level frames - 1)
      (openColumns frames).length
      (fun e us => us.length ≤ ts.length ∧ Stops whole us ∧
        conclude limits (.complete frames left none) ts =
          conclude limits (.complete frames e none) us)
      (chainRest limits op? rule rounds left (cursor frames (level frames - 1) ts)).result := by
  induction rounds generalizing left ts with
  | zero => exact absurd hrounds (Nat.not_lt_zero _)
  | succ rounds ih =>
    rw [chainRest, peek_bind, cursor]
    cases hop : ts.head?.bind fun t => op? t.kind with
    | none => exact .pure ⟨le_rfl, hchain.stops hts (Option.bind_eq_none_iff.mp hop), rfl⟩
    | some op =>
      obtain ⟨t, hhead, ht⟩ := Option.bind_eq_some_iff.mp hop
      obtain ⟨us, rfl⟩ := List.head?_eq_some_iff.mp hhead
      rw [List.length_cons] at hrounds hn
      have hread := reads (frame op left :: frames) us (by omega) (hchain.admits ..)
      rw [enter_of_le ((hchain.level_eq ..).trans_le hlevel), cursor, hchain.level_eq,
        openColumns_cons_none (hchain.column?_eq ..)] at hread
      rw [conclude_cons_of_step (hchain.step h ht left)]
      refine hread.bind ?_
      rintro e vs ⟨hlt, _, hvs, heq⟩
      rw [heq, hchain.join h op left e hvs]
      cases chain limits op left e with
      | error cause => exact .error rfl
      | ok joined =>
        refine (ih joined (by omega) (by omega) hvs).mono ?_
        rintro e' ws ⟨hle, hws, heq'⟩
        exact ⟨by rw [List.length_cons]; omega, hws, heq'⟩

/-- An operand and the operands after it are a chain. -/
theorem IsChain.readsPhrase (hchain : IsChain limits op? frame part whole)
    (reads : ReadsPhrase limits n part rule) (hrounds : n ≤ rounds) :
    ReadsPhrase limits n whole (rule >>= chainRest limits op? rule rounds) := by
  intro frames ts hn h
  refine (reads frames ts hn (h.of_le hchain.rank_le)).bind ?_
  rintro e us ⟨hlt, hlevel, hus, heq⟩
  rw [heq]
  refine (hchain.settles_chainRest reads h hlevel e (by omega) (by omega) hus).mono ?_
  rintro e' vs ⟨hle, hvs, heq'⟩
  exact ⟨by omega, hlevel, hvs, heq'⟩

end Chain

theorem readsPhrase_product {power : Rule Expr} {n rounds : Nat}
    (reads : ReadsPhrase limits n .power power) (hrounds : n ≤ rounds) :
    ReadsPhrase limits n .product (product limits power rounds) :=
  isChain_product.readsPhrase reads hrounds

theorem readsPhrase_sum {power : Rule Expr} {n rounds : Nat}
    (reads : ReadsPhrase limits n .power power) (hrounds : n ≤ rounds) :
    ReadsPhrase limits n .sum (sum limits power rounds) :=
  isChain_sum.readsPhrase (readsPhrase_product reads hrounds) hrounds

/-! ### Parentheses and calls -/

/-- A state **awaits** that the parenthesis opened at a column is closed, which gives `closed`. -/
structure Awaits (limits : Limits) (s : State) (column : Nat) (closed : Except ParseError State)
    (ts : List Token) : Prop where
  finish : ts = [] → s.finish limits = .error (.unclosedParen column)
  step : ∀ t ∈ ts.head?, s.step limits t =
    if t.kind = .rparen then closed else .error (unexpected t .closingParen)

/-- The parenthesis is closed, or there is an error. -/
theorem Awaits.settles_closeParen {s : State} {column depth opened : Nat}
    {closed : Except ParseError State} {ts : List Token} (h : Awaits limits s column closed ts) :
    Settles (conclude limits s ts) depth opened
      (fun _ us => us.length < ts.length ∧
        conclude limits s ts = closed >>= fun s' => conclude limits s' us)
      (closeParen column ⟨ts, depth, opened + 1⟩).result := by
  rw [closeParen, advance_bind]
  rcases ts with _ | ⟨t, us⟩
  · exact .fail (h.finish rfl)
  · have hstep := h.step t rfl
    by_cases ht : t.kind = .rparen
    · have hcount : difference? (opened + 1) 1 = some opened :=
        difference?_of_le (Nat.le_add_left 1 opened)
      rw [if_pos ht] at hstep
      simp only [List.head?_cons, ht, ↓reduceIte, countClosing, hcount, Option.map_some]
      exact .value ⟨Nat.lt_succ_self _, by rw [conclude_cons, hstep, List.tail_cons]⟩
    · rw [if_neg ht] at hstep
      simp only [List.head?_cons, ht, ↓reduceIte]
      exact .fail (conclude_cons_of_error hstep us)

section Awaits

variable {frames : List Frame} {column : Nat} {e : Expr} {ts : List Token}

theorem awaits_group (h : Stops .sum ts) :
    Awaits limits (.complete (.group column :: frames) e none) column
      (.ok (finishOperand frames e none)) ts where
  finish _ := rfl
  step t ht := by
    rw [step_of_not_goesOnWith (Nat.zero_le _) e (h t ht)]
    obtain ⟨kind, _⟩ := t
    cases kind <;> rfl

theorem awaits_call {f : Callable} {before : List Expr} (h : Stops .sum ts)
    (hcomma : ∀ t ∈ ts.head?, t.kind ≠ .comma) :
    Awaits limits (.complete (.call f column before :: frames) e none) column
      (finishCall frames f (before ++ [e])) ts where
  finish _ := rfl
  step t ht := by
    have hkind : t.kind ≠ .comma := hcomma t ht
    rw [step_of_not_goesOnWith (Nat.zero_le _) e (h t ht)]
    obtain ⟨kind, _⟩ := t
    cases kind with
    | comma => exact absurd rfl hkind
    | _ => rfl

theorem awaits_arguments {f : Callable} {t : Token} (ht : t.kind = .rparen) :
    Awaits limits (.arguments frames f column) column (finishCall frames f []) (t :: ts) where
  finish h := absurd h (List.cons_ne_nil _ _)
  step := by
    rintro _ ⟨⟩
    rw [State.step, if_pos ht, if_pos ht]

end Awaits

section Calls

variable {sum : Rule Expr} {n rounds : Nat}

/-- Inside of a parenthesis a sum is read one level deeper, with one parenthesis more open. -/
theorem ReadsPhrase.inside_paren (reads : ReadsPhrase limits n .sum sum) {frame : Frame}
    {column : Nat} (hcolumn : frame.column? = some column) (hnests : frame.nests = true)
    {frames : List Frame} (h : Admits (frame :: frames) .sum) {ts : List Token}
    (hn : ts.length ≤ n) :
    Settles (enter limits (frame :: frames) ts) (level frames) ((openColumns frames).length + 1)
      (fun e us => us.length < ts.length ∧ level frames + 1 ≤ limits.nesting ∧ Stops .sum us ∧
        enter limits (frame :: frames) ts = conclude limits (.complete (frame :: frames) e none) us)
      (sum ⟨ts, level frames, (openColumns frames).length + 1⟩).result := by
  have hread := reads (frame :: frames) ts hn h
  rw [cursor, level_cons_of_nests hnests, openColumns_cons_some hcolumn] at hread
  exact hread

/-- What is given to a call has been read up to where its parenthesis is to be closed. -/
def GivenTo (limits : Limits) (frames : List Frame) (f : Callable) (column : Nat)
    (whole : Except ParseError Expr) (given : List Expr) (ts : List Token) : Prop :=
  ∃ s, whole = conclude limits s ts ∧ Awaits limits s column (finishCall frames f given) ts

/-- The arguments after the first one are read, one in each round. -/
theorem settles_moreArguments (reads : ReadsPhrase limits n .sum sum) {frames : List Frame}
    (hlevel : level frames + 1 ≤ limits.nesting) (f : Callable) (column : Nat)
    (before : List Expr) (last : Expr) {ts : List Token} (hrounds : ts.length < rounds)
    (hn : ts.length ≤ n) (hts : Stops .sum ts) :
    Settles (conclude limits (.complete (.call f column before :: frames) last none) ts)
      (level frames) ((openColumns frames).length + 1)
      (fun given us => us.length ≤ ts.length ∧ GivenTo limits frames f column
        (conclude limits (.complete (.call f column before :: frames) last none) ts) given us)
      (moreArguments sum rounds (before ++ [last])
        ⟨ts, level frames, (openColumns frames).length + 1⟩).result := by
  induction rounds generalizing before last ts with
  | zero => exact absurd hrounds (Nat.not_lt_zero _)
  | succ rounds ih =>
    rw [moreArguments, peek_bind]
    split
    · rename_i hcomma
      obtain ⟨t, us, rfl, ht⟩ := exists_cons_of_any hcomma
      rw [List.length_cons] at hrounds hn
      -- the next argument is read inside of a frame that has the last one
      have hframe : level (.call f column (before ++ [last]) :: frames) = level frames + 1 :=
        level_cons_of_nests rfl
      have hstep : (State.complete (.call f column before :: frames) last none).step limits t =
          .ok (.operand (.call f column (before ++ [last]) :: frames)) := by
        obtain ⟨kind, _⟩ := t
        cases ht
        rfl
      rw [conclude_cons_of_step hstep, ← enter_of_le (hframe.trans_le hlevel)]
      refine (reads.inside_paren rfl rfl (Nat.zero_le _) (by omega)).bind ?_
      rintro e vs ⟨hlt, _, hvs, heq⟩
      rw [heq]
      refine (ih (before ++ [last]) e (by omega) (by omega) hvs).mono ?_
      rintro given ws ⟨hle, hend⟩
      exact ⟨by rw [List.length_cons]; omega, hend⟩
    · rename_i hcomma
      exact .pure ⟨le_rfl, _, rfl, awaits_call hts (kind_ne_of_not_any hcomma)⟩

/-- Where arguments must come and the parenthesis is not closed at once, a sum must come. -/
theorem conclude_arguments {frames : List Frame} {f : Callable} {column : Nat} {ts : List Token}
    (h : ∀ t ∈ ts.head?, t.kind ≠ .rparen) :
    conclude limits (.arguments frames f column) ts =
      enter limits (.call f column [] :: frames) ts := by
  rcases ts with _ | ⟨t, ts⟩
  · rw [conclude_nil, State.finish, enter, nest]
    split <;> rfl
  · rw [conclude_cons, State.step, if_neg (h t rfl), enter, nest]
    split
    · rw [conclude_cons]
      rfl
    · rfl

/-- All arguments of a call are read. -/
theorem settles_argumentList (reads : ReadsPhrase limits n .sum sum) (frames : List Frame)
    (f : Callable) (column : Nat) {ts : List Token} (hn : ts.length ≤ n) (hrounds : n ≤ rounds) :
    Settles (conclude limits (.arguments frames f column) ts) (level frames)
      ((openColumns frames).length + 1)
      (fun given us => us.length ≤ ts.length ∧ GivenTo limits frames f column
        (conclude limits (.arguments frames f column) ts) given us)
      (argumentList sum rounds ⟨ts, level frames, (openColumns frames).length + 1⟩).result := by
  rw [argumentList, peek_bind]
  split
  · rename_i hclosing
    obtain ⟨t, us, rfl, ht⟩ := exists_cons_of_any hclosing
    exact .pure ⟨le_rfl, _, rfl, awaits_arguments ht⟩
  · rename_i hclosing
    rw [conclude_arguments (kind_ne_of_not_any hclosing)]
    refine (reads.inside_paren rfl rfl (Nat.zero_le _) hn).bind ?_
    rintro e us ⟨hlt, hlevel, hus, heq⟩
    rw [heq]
    refine (settles_moreArguments reads hlevel f column [] e (by omega) (by omega) hus).mono ?_
    rintro given vs ⟨hle, hgiven⟩
    exact ⟨by omega, hgiven⟩

/-- The arguments of a call are read with their parentheses. -/
theorem settles_arguments (reads : ReadsPhrase limits n .sum sum) (frames : List Frame)
    (f : Callable) (opening : Token) {ts : List Token} (hn : ts.length ≤ n) (hrounds : n ≤ rounds) :
    Settles (conclude limits (.arguments frames f opening.column) ts) (level frames)
      (openColumns frames).length
      (fun given us => us.length < ts.length ∧
        conclude limits (.arguments frames f opening.column) ts =
          finishCall frames f given >>= fun s => conclude limits s us)
      (arguments sum rounds (cursor frames (level frames) (opening :: ts))).result := by
  rw [arguments, advance_bind, countOpening_bind]
  refine (settles_argumentList reads frames f opening.column hn hrounds).bind ?_
  rintro given us ⟨hle, s, heq, hawaits⟩
  rw [heq]
  refine hawaits.settles_closeParen.bind ?_
  rintro _ vs ⟨hlt, heq'⟩
  exact .pure ⟨by omega, heq'⟩

/-- A call with the right number of arguments has them all. -/
theorem apply_of_length {f : Callable} {given : List Expr} (h : given.length = f.arity)
    (frames : List Frame) :
    ∃ e, apply f given = pure e ∧
      finishCall frames f given = .ok (finishOperand frames e none) := by
  cases f with
  | unary g =>
    obtain ⟨a, rfl⟩ := List.length_eq_one_iff.mp h
    exact ⟨.unary (.call g) a, rfl, rfl⟩
  | binary g =>
    obtain ⟨a, b, rfl⟩ := List.length_eq_two.mp h
    exact ⟨.binary (.call g) a b, rfl, rfl⟩

theorem finishCall_of_length {f : Callable} {given : List Expr} (h : given.length ≠ f.arity)
    (frames : List Frame) :
    finishCall frames f given = .error (.argumentCount f.name f.arity given.length) := by
  cases f with
  | unary g =>
    match given, h with
    | [], _ => rfl
    | [_], h => exact absurd rfl h
    | _ :: _ :: _, _ => rfl
  | binary g =>
    match given, h with
    | [], _ => rfl
    | [_], _ => rfl
    | [_, _], h => exact absurd rfl h
    | _ :: _ :: _ :: _, _ => rfl

/-- A bare name is an operand unless it is called. -/
theorem conclude_bare {frames : List Frame} {e : Expr} {bare : String × Nat} {ts : List Token}
    (h : ∀ t ∈ ts.head?, t.kind ≠ .lparen) :
    conclude limits (finishOperand frames e (some bare)) ts =
      conclude limits (finishOperand frames e none) ts := by
  rcases ts with _ | ⟨t, ts⟩
  · rfl
  · have ht : t.kind ≠ .lparen := h t rfl
    obtain ⟨kind, _⟩ := t
    rw [conclude_cons, conclude_cons]
    cases kind with
    | lparen => exact absurd rfl ht
    | _ => rfl

theorem conclude_bare_called {frames : List Frame} {e : Expr} {letters : String} {column : Nat}
    {t : Token} (ht : t.kind = .lparen) (ts : List Token) :
    conclude limits (finishOperand frames e (some (letters, column))) (t :: ts) =
      .error (.notCallable letters column) := by
  obtain ⟨kind, _⟩ := t
  subst ht
  rfl

theorem conclude_callee {frames : List Frame} {f : Callable} {column : Nat} {ts : List Token}
    (h : ∀ t ∈ ts.head?, t.kind ≠ .lparen) :
    conclude limits (.callee frames f column) ts = .error (.missingCall f.name column) := by
  rcases ts with _ | ⟨t, ts⟩
  · rfl
  · have hstep : (State.callee frames f column).step limits t =
        .error (.missingCall f.name column) := if_neg (h t rfl)
    exact conclude_cons_of_error hstep ts

theorem conclude_callee_called {frames : List Frame} {f : Callable} {column : Nat} {t : Token}
    (ht : t.kind = .lparen) (ts : List Token) :
    conclude limits (.callee frames f column) (t :: ts) =
      conclude limits (.arguments frames f t.column) ts := by
  have hstep : (State.callee frames f column).step limits t = .ok (.arguments frames f t.column) :=
    if_pos ht
  exact conclude_cons_of_step hstep ts

/-- A name that stands for itself is read unless it is called. -/
theorem settles_bare (frames : List Frame) (e : Expr) (letters : String) (column : Nat)
    (ts : List Token) :
    Settles (conclude limits (finishOperand frames e (some (letters, column))) ts) (level frames)
      (openColumns frames).length
      (fun e' us => us.length ≤ ts.length ∧
        conclude limits (finishOperand frames e (some (letters, column))) ts =
          conclude limits (finishOperand frames e' none) us)
      ((peek >>= fun next => if next.any (·.kind = .lparen) then
        fail (.notCallable letters column) else pure e) (cursor frames (level frames) ts)).result := by
  rw [peek_bind]
  split
  · rename_i hcall
    obtain ⟨t, us, rfl, ht⟩ := exists_cons_of_any hcall
    exact .fail (conclude_bare_called ht us)
  · rename_i hcall
    exact .pure ⟨le_rfl, conclude_bare (kind_ne_of_not_any hcall)⟩

/-- The arguments of a call are read, and **it has as many as it takes**. -/
theorem settles_called (reads : ReadsPhrase limits n .sum sum) (frames : List Frame)
    (f : Callable) (column : Nat) {opening : Token} (hopening : opening.kind = .lparen)
    {ts : List Token} (hn : ts.length ≤ n) (hrounds : n ≤ rounds) :
    Settles (conclude limits (.callee frames f column) (opening :: ts)) (level frames)
      (openColumns frames).length
      (fun e us => us.length < ts.length ∧
        conclude limits (.callee frames f column) (opening :: ts) =
          conclude limits (finishOperand frames e none) us)
      ((arguments sum rounds >>= fun given => if given.length = f.arity then apply f given else
        fail (.argumentCount f.name f.arity given.length))
          (cursor frames (level frames) (opening :: ts))).result := by
  rw [conclude_callee_called hopening]
  refine (settles_arguments reads frames f opening hn hrounds).bind ?_
  rintro given us ⟨hlt, heq⟩
  rw [heq]
  split
  · rename_i harity
    obtain ⟨e, happly, hfinish⟩ := apply_of_length harity frames
    rw [happly, hfinish, ok_bind]
    exact .pure ⟨hlt, rfl⟩
  · rename_i harity
    rw [finishCall_of_length harity, error_bind]
    exact .fail rfl

/-- A name is read, with its arguments if it is called. -/
theorem settles_named (reads : ReadsPhrase limits n .sum sum) (frames : List Frame)
    {letters : String} {t : Token} (ht : t.kind = .name letters) {ts : List Token}
    (hn : ts.length ≤ n) (hrounds : n ≤ rounds) :
    Settles (conclude limits (.operand frames) (t :: ts)) (level frames)
      (openColumns frames).length
      (fun e us => us.length ≤ ts.length ∧ conclude limits (.operand frames) (t :: ts) =
        conclude limits (finishOperand frames e none) us)
      (named sum rounds letters t.column (cursor frames (level frames) ts)).result := by
  have hstep : (State.operand frames).step limits t = readOperand limits frames t := rfl
  rw [readOperand, ht] at hstep
  simp only at hstep
  unfold named
  cases hname : Builtin.ofName? letters with
  | none =>
    rw [hname] at hstep
    exact .fail (conclude_cons_of_error hstep ts)
  | some b =>
    rw [hname] at hstep
    cases b with
    | x =>
      rw [conclude_cons_of_step hstep]
      exact settles_bare frames .var letters t.column ts
    | constant c =>
      rw [conclude_cons_of_step hstep]
      exact settles_bare frames (.named c) letters t.column ts
    | callable f =>
      rw [conclude_cons_of_step hstep]
      -- the errors of a call give the name of the function as it is spelled
      obtain rfl : f.name = letters := Builtin.name_of_ofName? hname
      simp only [peek_bind]
      split
      · rename_i hcall
        obtain ⟨opening, us, rfl, hopening⟩ := exists_cons_of_any hcall
        rw [List.length_cons] at hn
        refine (settles_called reads frames f t.column hopening (by omega) hrounds).mono ?_
        rintro e vs ⟨hlt, heq⟩
        exact ⟨by rw [List.length_cons]; omega, heq⟩
      · rename_i hcall
        exact .fail (conclude_callee (kind_ne_of_not_any hcall))

/-! ### Operands -/

/-- An operand without signs is read. -/
theorem settles_operand (reads : ReadsPhrase limits n .sum sum) (frames : List Frame)
    {ts : List Token} (hn : ts.length ≤ n + 1) (hrounds : n ≤ rounds)
    (hsign : ∀ t ∈ ts.head?, t.kind ≠ .minus ∧ t.kind ≠ .plus) :
    Settles (conclude limits (.operand frames) ts) (level frames) (openColumns frames).length
      (fun e us => us.length < ts.length ∧
        conclude limits (.operand frames) ts = conclude limits (finishOperand frames e none) us)
      (operand sum rounds (cursor frames (level frames) ts)).result := by
  rw [operand, advance_bind]
  rcases ts with _ | ⟨t, ts⟩
  · exact .fail rfl
  · rw [List.length_cons, Nat.add_le_add_iff_right] at hn
    obtain ⟨hminus, hplus⟩ := hsign t rfl
    have hstep : (State.operand frames).step limits t = readOperand limits frames t := rfl
    obtain ⟨kind, column⟩ := t
    cases kind with
    | number value => exact .pure ⟨Nat.lt_succ_self _, conclude_cons_of_step hstep ts⟩
    | name letters =>
      refine (settles_named reads frames rfl hn hrounds).mono ?_
      rintro e us ⟨hle, heq⟩
      exact ⟨by rw [List.length_cons]; omega, heq⟩
    | lparen =>
      simp only [cursor, List.head?_cons, countOpening_bind]
      rw [conclude_cons_of_nest hstep]
      refine (reads.inside_paren rfl rfl (Nat.zero_le _) hn).bind ?_
      rintro e us ⟨hlt, _, hus, heq⟩
      rw [heq]
      refine (awaits_group hus).settles_closeParen.bind ?_
      rintro _ vs ⟨hlt', heq'⟩
      exact .pure ⟨by rw [List.length_cons]; omega, heq'⟩
    | rparen =>
      have hopen : openColumns frames = [] ↔ ¬frames.any Frame.isOpen = true := by
        rw [any_isOpen_iff, not_not]
      rw [readOperand] at hstep
      simp only [List.head?_cons, opened_bind, cursor, List.length_eq_zero_iff, hopen]
      split
      · rename_i hnone
        exact .fail (conclude_cons_of_error (hstep.trans (if_neg hnone)) ts)
      · rename_i hsome
        exact .fail (conclude_cons_of_error (hstep.trans (if_pos (not_not.mp hsome))) ts)
    | minus => exact absurd rfl hminus
    | plus => exact absurd rfl hplus
    | star | slash | caret | comma => exact .fail (conclude_cons_of_error hstep ts)

end Calls

/-! ### Signs and powers -/

section Signs

variable {n calls : Nat}

/-- What a sign stands in front of is read one level deeper. -/
theorem settles_sign {rule : Rule Expr} {goesOn : Expr → List Token → Prop} {frames : List Frame}
    {t : Token} {negates : Bool} (hstep : (State.operand frames).step limits t =
      State.operand <$> nest limits (.sign negates) frames) {ts : List Token}
    (h : level frames + 1 ≤ limits.nesting → conclude limits (.operand frames) (t :: ts) =
        conclude limits (.operand (.sign negates :: frames)) ts →
      Settles (conclude limits (.operand (.sign negates :: frames)) ts) (level frames + 1)
        (openColumns frames).length goesOn (rule (cursor frames (level frames + 1) ts)).result) :
    Settles (conclude limits (.operand frames) (t :: ts)) (level frames)
      (openColumns frames).length goesOn
      (descend limits rule (cursor frames (level frames) ts)).result := by
  have hframe : level (.sign negates :: frames) = level frames + 1 := level_cons_of_nests rfl
  have henter := conclude_cons_of_nest hstep ts
  refine .descend (fun hdeep => henter.trans (if_neg (by omega))) ?_
  intro hdeep
  rw [enter_of_le (by omega)] at henter
  rw [henter]
  exact h hdeep henter

/-- Inside of a sign the reader has one frame more. -/
theorem ReadsSigned.inside_sign {rule : Rule Expr} (reads : ReadsSigned limits n rule)
    {frames : List Frame} (negates : Bool) {ts : List Token} (hn : ts.length ≤ n)
    (hlevel : level frames + 1 ≤ limits.nesting) :
    Settles (conclude limits (.operand (.sign negates :: frames)) ts) (level frames + 1)
      (openColumns frames).length
      (fun e us => us.length < ts.length ∧
        conclude limits (.operand (.sign negates :: frames)) ts =
          conclude limits (finishOperand (.sign negates :: frames) e none) us)
      (rule (cursor frames (level frames + 1) ts)).result := by
  have hframe : level (.sign negates :: frames) = level frames + 1 := level_cons_of_nests rfl
  have hread := reads (.sign negates :: frames) ts hn (hframe.trans_le hlevel)
  rw [hframe, cursor, openColumns_cons_none rfl] at hread
  exact hread

/-- Nothing is there to be read. -/
theorem readsSigned_zero : ReadsSigned limits 0 (signed limits (calls + 1)) := by
  intro frames ts hn _
  rw [List.length_eq_zero_iff.mp (Nat.le_zero.mp hn)]
  exact .fail rfl

theorem readsSigned_succ (signed : ReadsSigned limits n (signed limits calls))
    (sum : ReadsPhrase limits n .sum (sum limits (power limits calls) calls)) (hcalls : n ≤ calls) :
    ReadsSigned limits (n + 1) (Descent.signed limits (calls + 1)) := by
  intro frames ts hn hlevel
  have hoperand := settles_operand sum frames hn hcalls
  rw [Descent.signed, peek_bind]
  rcases ts with _ | ⟨⟨kind, column⟩, ts⟩
  · exact hoperand (by rintro _ ⟨⟩)
  · have hts : ts.length ≤ n := Nat.le_of_succ_le_succ hn
    cases kind with
    | minus =>
      refine settles_sign rfl ?_
      intro hlevel henter
      refine (signed.inside_sign true hts hlevel).bind ?_
      rintro e us ⟨hlt, heq⟩
      exact .pure ⟨Nat.lt_succ_of_lt hlt, henter.trans heq⟩
    | plus =>
      refine settles_sign rfl ?_
      intro hlevel henter
      refine (signed.inside_sign false hts hlevel).mono ?_
      rintro e us ⟨hlt, heq⟩
      exact ⟨Nat.lt_succ_of_lt hlt, henter.trans heq⟩
    | _ => exact hoperand (by rintro _ ⟨⟩; exact ⟨nofun, nofun⟩)

theorem readsPower_succ (signed : ReadsSigned limits n (signed limits calls))
    (power : ∀ m, m + 2 ≤ n → ReadsPhrase limits m .power (power limits calls)) :
    ReadsPhrase limits n .power (Descent.power limits (calls + 1)) := by
  intro frames ts hn h
  have hlevel : level frames - 1 + 1 = level frames := Nat.sub_add_cancel (Nat.le_add_right 1 _)
  rw [Descent.power]
  refine .descend (fun hdeep => if_neg (by omega)) ?_
  intro hdeep
  rw [enter_of_le (by omega), hlevel]
  refine (signed frames ts hn (by omega)).bind ?_
  rintro base us ⟨hlt, heq⟩
  rw [finishOperand, applySigns_of_admits h] at heq
  simp only [peek_bind]
  split
  · rename_i hcaret
    obtain ⟨t, vs, rfl, ht⟩ := exists_cons_of_any hcaret
    rw [List.length_cons] at hlt
    have hframe : level (.power base :: frames) = level frames + 1 := level_cons_of_nests rfl
    have hread := power vs.length (by omega) (.power base :: frames) vs le_rfl (Nat.le_refl _)
    have hstep : (State.complete frames base none).step limits t =
        State.operand <$> nest limits (.power base) frames := by
      obtain ⟨kind, _⟩ := t
      cases ht
      rfl
    rw [cursor, hframe, openColumns_cons_none rfl] at hread
    rw [heq, conclude_cons_of_nest hstep]
    refine hread.bind ?_
    rintro e ws ⟨hlt', _, hws, heq'⟩
    rw [heq', conclude_power base e frames hws]
    exact .pure ⟨by omega, by omega, hws, rfl⟩
  · rename_i hcaret
    exact .pure ⟨hlt, by omega, kind_ne_of_not_any hcaret, heq⟩

/-- **With calls enough**, the rules for signed operands and powers read them. -/
theorem reads_of_calls (calls : Nat) :
    (∀ n, 2 * n + 1 ≤ calls → ReadsSigned limits n (signed limits calls)) ∧
      ∀ n, 2 * n + 2 ≤ calls → ReadsPhrase limits n .power (power limits calls) := by
  induction calls with
  | zero => exact ⟨fun n h => by omega, fun n h => by omega⟩
  | succ calls ih =>
    obtain ⟨signed, power⟩ := ih
    constructor
    · intro n h
      cases n with
      | zero => exact readsSigned_zero
      | succ n =>
        have sum : ReadsPhrase limits n .sum (sum limits (Descent.power limits calls) calls) :=
          readsPhrase_sum (power n (by omega)) (by omega)
        exact readsSigned_succ (signed n (by omega)) sum (by omega)
    · intro n h
      exact readsPower_succ (signed n (by omega)) fun m hm => power m (by omega)

end Signs

/-! ### Whole formulas -/

theorem settles_formula {calls : Nat} {tokens : List Token} (hn : 1 ≤ limits.nesting)
    (hcalls : 2 * tokens.length + 2 ≤ calls) :
    Settles (ofTokensWithin limits tokens) 0 0
      (fun e _ => ofTokensWithin limits tokens = .ok e)
      (formula limits calls ⟨tokens, 0, 0⟩).result := by
  have reads : ReadsPhrase limits tokens.length .sum (sum limits (power limits calls) calls) :=
    readsPhrase_sum ((reads_of_calls calls).2 _ hcalls) (by omega)
  have hread := reads [] tokens le_rfl (Nat.le_refl _)
  have henter : enter limits [] tokens = ofTokensWithin limits tokens :=
    enter_of_le (level_nil.trans_le hn) tokens
  rw [henter] at hread
  refine hread.bind ?_
  rintro e us ⟨_, _, hus, heq⟩
  rw [peek_bind]
  rcases us with _ | ⟨t, us⟩
  · exact .pure heq
  · have hstep : (State.complete [] e none).step limits t =
        .error (if t.kind = .rparen then .unmatchedParen t.column
          else unexpected t .operatorOrEnd) := by
      rw [step_of_not_goesOnWith (Nat.le_refl _) e (hus t rfl)]
      obtain ⟨kind, _⟩ := t
      cases kind <;> rfl
    have hfail := heq.trans (conclude_cons_of_error hstep us)
    simp only [List.head?_cons]
    split
    · rename_i ht
      exact .fail (by rw [hfail, if_pos ht])
    · rename_i ht
      exact .fail (by rw [hfail, if_neg ht])

/-- A run with calls enough leaves no domain and ends as the reader does. -/
theorem result_formula {calls : Nat} {tokens : List Token} (hn : 1 ≤ limits.nesting)
    (hcalls : 2 * tokens.length + 2 ≤ calls) :
    ∃ c, (formula limits calls ⟨tokens, 0, 0⟩).result = some (ofTokensWithin limits tokens, c) := by
  have settled := settles_formula hn hcalls
  generalize (formula limits calls ⟨tokens, 0, 0⟩).result = r at settled
  cases settled with
  | value h => exact ⟨_, by rw [h]⟩
  | error h => exact ⟨_, by rw [h]⟩

end Descent

/-- **Recursive descent reads what the reader reads**, and leaves no domain. -/
theorem ofTokens?_eq (hn : 1 ≤ limits.nesting) (tokens : List Token) {calls : Nat}
    (hcalls : 2 * tokens.length + 2 ≤ calls) :
    ofTokens? limits calls tokens = some (ofTokensWithin limits tokens) := by
  obtain ⟨c, hresult⟩ := Descent.result_formula hn hcalls
  rw [ofTokens?, hresult, Option.map_some]

/-- The formula that a text spells, scanned by positions and read by recursive descent. -/
def parse? (source : String) : Option (Except ParseError Expr) := do
  match ← Token.scanAt? source.toList 0 [] with
  | .error cause => return .error cause
  | .ok tokens =>
    if tokens.isEmpty then
      return .error .empty
    else
      ofTokens? .standard (2 * tokens.length + 2) tokens

/-- **Every text is read** without leaving a domain. -/
theorem parse?_eq (source : String) : parse? source = some (parse source) := by
  have scanned : Token.scanAt? source.toList 0 [] = some (Token.scan source) :=
    Token.scanAt?_eq source.toList 0 []
  rw [parse?, parse, scanned]
  rcases Token.scan source with cause | tokens
  · rfl
  · simp only [Option.bind_eq_bind, Option.bind_some, ok_bind]
    split
    · rfl
    · exact ofTokens?_eq (by decide) tokens le_rfl

end Expr

end CurvePlot
