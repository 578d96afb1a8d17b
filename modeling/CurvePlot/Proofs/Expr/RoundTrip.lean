import CurvePlot.Proofs.Expr.Outcome
import CurvePlot.Proofs.Expr.Printed

/-!
# Reading a formula that was written down

What was written is read back as it was, up to the limit on nesting. A number with its sign bit
set is read as the negation of a number, and a number that is not finite is not read at all.

The text of a tree is always an operand, so it is enough to say what the reader makes of an
operand inside of any frames (`ReadsBack`). Each thing that is written has one rule; the rules
are put together by induction on the tree (`readsBack`). The limit on the depth of chains is
never met: what is written has parentheses around every operation, so the reader is stopped by
the limit on nesting before.
-/

namespace CurvePlot

namespace Expr

open Token (Kind)

variable {limits : Limits}

/-! ### What a tree is read back as -/

/-- The numbers in a formula, from left to right. -/
def numbers : Expr → List Float
  | const value => [value]
  | var => []
  | named _ => []
  | unary _ a => a.numbers
  | binary _ a b => a.numbers ++ b.numbers

/-- The formula with the sign of every number as a negation. -/
def norm : Expr → Expr
  | const value => if Binary64.signBit value then .unary .neg (.const (-value)) else .const value
  | var => .var
  | named c => .named c
  | unary op a => .unary op a.norm
  | binary op a b => .binary op a.norm b.norm

/-- The **nesting of a text**: how much deeper than the text its deepest operand stands. -/
def nesting : Expr → Nat
  | const value => if Binary64.signBit value then 2 else 0
  | var => 0
  | named _ => 0
  | unary .neg a => 2 + a.nesting
  | unary (.call _) a => 1 + a.nesting
  | binary .pow a b => 1 + max a.nesting (1 + b.nesting)
  | binary _ a b => 1 + max a.nesting b.nesting

/-- Signs as negations do not change the value. -/
theorem eval_norm (x : Float) (t : Expr) : t.norm.eval x = t.eval x := by
  induction t with
  | const value =>
    unfold norm
    split
    · exact Binary64.neg_neg_eq value
    · rfl
  | var => rfl
  | named c => rfl
  | unary op a ih => rw [norm, eval, eval, ih]
  | binary op a b iha ihb => rw [norm, eval, eval, iha, ihb]

/-- Without signs there is nothing to change. -/
theorem norm_eq_self {t : Expr} (h : ∀ v ∈ t.numbers, Binary64.signBit v = false) : t.norm = t := by
  induction t with
  | const value => simp [norm, h value List.mem_cons_self]
  | var => rfl
  | named c => rfl
  | unary op a ih => rw [norm, ih h]
  | binary op a b iha ihb =>
    rw [numbers, List.forall_mem_append] at h
    rw [norm, iha h.1, ihb h.2]

/-- A formula is not deeper than its text is nested. -/
theorem depth_norm_le (t : Expr) : t.norm.depth ≤ 1 + t.nesting := by
  induction t with
  | const value =>
    unfold norm nesting
    split <;> simp [depth]
  | var => exact Nat.le_refl 1
  | named c => exact Nat.le_refl 1
  | unary op a ih =>
    cases op <;> simp only [norm, depth, nesting] <;> omega
  | binary op a b iha ihb =>
    cases op <;> simp only [norm, depth, nesting] <;> omega

/-! ### Three ways to read back -/

/-- The three ways of reading back what holds some numbers and has its deepest operand at the
level `top`: it gives what it should, or it is nested too deeply, or some number is not
finite. -/
inductive Reading {α : Type} (limits : Limits) (numbers : List Float) (top : Nat)
    (expected : α → Prop) : Except ParseError α → Prop where
  | read {a : α} (finite : ∀ v ∈ numbers, v.isFinite = true) (fits : top ≤ limits.nesting)
    (result : expected a) : Reading limits numbers top expected (.ok a)
  | tooDeep (deep : limits.nesting < top) :
    Reading limits numbers top expected (.error (.tooDeep limits.nesting))
  | notFinite {e : ParseError} (infinite : ¬ ∀ v ∈ numbers, v.isFinite = true) :
    Reading limits numbers top expected (.error e)

section Reading

variable {α β : Type} {ns ms : List Float} {top top' : Nat} {expected : α → Prop}
  {expected' : β → Prop}

/-- Go on after a part of what is read. -/
theorem Reading.bind {r : Except ParseError α} {f : α → Except ParseError β}
    (h : Reading limits ns top expected r) (deeper : top ≤ top') (more : ns ⊆ ms)
    (next : ∀ a, expected a → (∀ v ∈ ns, v.isFinite = true) → top ≤ limits.nesting →
      Reading limits ms top' expected' (f a)) : Reading limits ms top' expected' (r >>= f) := by
  cases h with
  | read finite fits result => exact next _ result finite fits
  | tooDeep deep => exact .tooDeep (by omega)
  | notFinite infinite => exact .notFinite fun h => infinite fun v hv => h v (more hv)

theorem Reading.nest {frame : Frame} {frames : List Frame}
    {f : List Frame → Except ParseError α} (deeper : level (frame :: frames) ≤ top)
    (next : level (frame :: frames) ≤ limits.nesting →
      Reading limits ns top expected (f (frame :: frames))) :
    Reading limits ns top expected (Expr.nest limits frame frames >>= f) := by
  unfold Expr.nest
  split
  · exact next ‹_›
  · exact .tooDeep (by omega)

theorem Reading.eq_ok_iff {r : Except ParseError α} {a : α}
    (h : Reading limits ns top (· = a) r) (b : α) :
    r = .ok b ↔ b = a ∧ (∀ v ∈ ns, v.isFinite = true) ∧ top ≤ limits.nesting := by
  cases h with
  | read finite fits result =>
    subst result
    exact ⟨fun h => ⟨(Except.ok.inj h).symm, finite, fits⟩, fun h => congrArg _ h.1.symm⟩
  | tooDeep deep =>
    exact ⟨fun h => (nomatch h), fun h => absurd h.2.2 (Nat.not_le_of_lt deep)⟩
  | notFinite infinite =>
    exact ⟨fun h => (nomatch h), fun h => absurd h.2.1 infinite⟩

theorem Reading.eq_error {r : Except ParseError α} (h : Reading limits ns top expected r)
    (finite : ∀ v ∈ ns, v.isFinite = true) (deep : limits.nesting < top) :
    r = .error (.tooDeep limits.nesting) := by
  cases h with
  | read _ fits _ => exact absurd fits (Nat.not_le_of_lt deep)
  | tooDeep _ => rfl
  | notFinite infinite => exact absurd finite infinite

end Reading

/-! ### Rules of reading back -/

/-- The tokens `ks` are **read back** as the operand `t`, inside of any frames; they hold the
numbers `ns`, and their deepest operand stands `n` levels deeper. -/
def ReadsBack (limits : Limits) (ks : List Kind) (ns : List Float) (n : Nat) (t : Expr) : Prop :=
  ∀ (frames : List Frame) (tokens : List Token), level frames ≤ limits.nesting →
    tokens.map Token.kind = ks →
      Reading limits ns (level frames + n) (fun s => ∃ bare, s = finishOperand frames t bare)
        (State.run limits (.operand frames) tokens)

section Rules

variable {ks js : List Kind} {ns ms : List Float} {n m : Nat} {t u : Expr}

/-- An operand that is one token. -/
theorem ReadsBack.token {k : Kind}
    (step : ∀ frames column, ∃ bare, readOperand limits frames ⟨k, column⟩ =
      .ok (finishOperand frames t bare)) (finite : ∀ v ∈ ns, v.isFinite = true) :
    ReadsBack limits [k] ns 0 t := by
  intro frames tokens hl hts
  obtain ⟨token, rfl, rfl⟩ := List.map_eq_singleton_iff.mp hts
  obtain ⟨bare, step⟩ := step frames token.column
  rw [State.run_singleton, State.step, step]
  exact .read finite hl ⟨bare, rfl⟩

/-- A word that is no name, in place of a number that is not finite. -/
theorem ReadsBack.word {s : String} (unknown : Builtin.ofName? s = none)
    (infinite : ¬ ∀ v ∈ ns, v.isFinite = true) : ReadsBack limits [.name s] ns n t := by
  intro frames tokens hl hts
  obtain ⟨token, rfl, hkind⟩ := List.map_eq_singleton_iff.mp hts
  rw [State.run_singleton, State.step, readOperand, hkind]
  simp only [unknown]
  exact .notFinite infinite

theorem ReadsBack.minus (h : ReadsBack limits ks ns n t) :
    ReadsBack limits (.minus :: ks) ns (1 + n) (.unary .neg t) := by
  intro frames tokens hl hts
  obtain ⟨sign, rest, rfl, hsign, hrest⟩ := List.map_eq_cons_iff.mp hts
  have step : readOperand limits frames sign =
      State.operand <$> nest limits (.sign true) frames := by
    rw [readOperand, hsign]
  rw [State.run_cons, step_opening step, bind_assoc]
  refine Reading.nest (by rw [level_cons_of_nests rfl]; omega) fun hnest => ?_
  -- the end of the operand applies the sign, so nothing is left to do after it
  have inside := h (.sign true :: frames) rest hnest hrest
  rwa [level_cons_of_nests rfl, Nat.add_assoc] at inside

/-- The closing parenthesis after something that has been read. -/
theorem Reading.close {s : State} {tokens : List Token} {closing : Token}
    {inner outer frames : List Frame} {top : Nat} {e closed : Expr}
    (h : Reading limits ns top (fun s => ∃ bare, s = .complete inner e bare) (s.run limits tokens))
    (kind : closing.kind = .rparen)
    (close : top ≤ limits.nesting → closeSum limits inner e = .ok (outer, closed))
    (next : readCloser outer closed closing = .ok (finishOperand frames t none)) :
    Reading limits ns top (fun s => ∃ bare, s = finishOperand frames t bare)
      (s.run limits (tokens ++ [closing])) := by
  rw [State.run_append]
  refine h.bind (Nat.le_refl _) (fun _ => id) ?_
  rintro _ ⟨bare, rfl⟩ finite fits
  rw [State.run_singleton, step_closer (.inl kind), State.close, close fits, ok_bind, next]
  exact .read finite fits ⟨none, rfl⟩

/-- Parentheses around an operand. -/
theorem ReadsBack.group (h : ReadsBack limits ks ns n t) :
    ReadsBack limits (.lparen :: (ks ++ [.rparen])) ns (1 + n) t := by
  intro frames tokens hl hts
  obtain ⟨opening, inner, closing, rfl, hopen, hinner, hclose⟩ := exists_enclosed hts
  rw [State.run_cons, step_lparen hopen, bind_assoc]
  refine Reading.nest (by rw [level_cons_of_nests rfl]; omega) fun hnest => ?_
  have inside := h (.group opening.column :: frames) inner hnest hinner
  rw [level_cons_of_nests rfl, Nat.add_assoc] at inside
  refine inside.close hclose (fun _ => rfl) ?_
  simp [readCloser, hclose]

/-- A call with one argument. -/
theorem ReadsBack.callUnary {f : UnaryFunction} (start : ∃ k rest, ks = k :: rest ∧ k ≠ .rparen)
    (h : ReadsBack limits ks ns n t) :
    ReadsBack limits (.name f.name :: .lparen :: (ks ++ [.rparen])) ns (1 + n)
      (.unary (.call f) t) := by
  intro frames tokens hl hts
  obtain ⟨head, rest, rfl, hhead, hrest⟩ := List.map_eq_cons_iff.mp hts
  obtain ⟨opening, inner, closing, rfl, hopen, hinner, hclose⟩ := exists_enclosed hrest
  obtain ⟨k, more, rfl, hk⟩ := start
  have name := Builtin.ofName?_name (.callable (.unary f))
  rw [run_call name hhead hopen, run_arguments (by rw [List.map_append, hinner]; rfl) hk]
  refine Reading.nest (by rw [level_cons_of_nests rfl]; omega) fun hnest => ?_
  have inside := h (.call (.unary f) opening.column [] :: frames) inner hnest hinner
  rw [level_cons_of_nests rfl, Nat.add_assoc] at inside
  refine inside.close hclose (fun _ => rfl) ?_
  simp [readCloser, hclose, finishCall]

/-- What is read after the first of two operands. -/
theorem Reading.second {α : Type} {top top' : Nat} {expected : α → Prop} {r : Except ParseError α}
    (h : Reading limits ms top' expected r) (finite : ∀ v ∈ ns, v.isFinite = true)
    (fits : top ≤ limits.nesting) : Reading limits (ns ++ ms) (max top top') expected r := by
  cases h with
  | read finite' fits' result =>
    exact .read (List.forall_mem_append.mpr ⟨finite, finite'⟩) (Nat.max_le.mpr ⟨fits, fits'⟩) result
  | tooDeep deep => exact .tooDeep (Nat.lt_of_lt_of_le deep (Nat.le_max_right _ _))
  | notFinite infinite => exact .notFinite fun h => infinite (List.forall_mem_append.mp h).2

/-- A call with two arguments. -/
theorem ReadsBack.callBinary {f : BinaryFunction} (start : ∃ k rest, ks = k :: rest ∧ k ≠ .rparen)
    (first : ReadsBack limits ks ns n t) (second : ReadsBack limits js ms m u) :
    ReadsBack limits (.name f.name :: .lparen :: (ks ++ .comma :: (js ++ [.rparen]))) (ns ++ ms)
      (1 + max n m) (.binary (.call f) t u) := by
  intro frames tokens hl hts
  obtain ⟨head, rest, rfl, hhead, hrest⟩ := List.map_eq_cons_iff.mp hts
  obtain ⟨opening, one, comma, two, closing, rfl, hopen, hone, hcomma, htwo, hclose⟩ :=
    exists_enclosed_two hrest
  obtain ⟨k, more, rfl, hk⟩ := start
  have name := Builtin.ofName?_name (.callable (.binary f))
  rw [run_call name hhead hopen, run_arguments (by rw [List.map_append, hone]; rfl) hk]
  refine Reading.nest (by rw [level_cons_of_nests rfl]; omega) fun hnest => ?_
  have hfirst := first (.call (.binary f) opening.column [] :: frames) one hnest hone
  rw [level_cons_of_nests rfl] at hfirst
  rw [State.run_append]
  refine hfirst.bind (by omega) (List.subset_append_left _ _) ?_
  rintro _ ⟨bare, rfl⟩ finite fits
  -- the comma moves the first argument into the frame of the call
  have step : (finishOperand (.call (.binary f) opening.column [] :: frames) t bare).step limits
      comma = .ok (.operand (.call (.binary f) opening.column [t] :: frames)) := by
    rw [finishOperand, applySigns_of_admits (Nat.zero_le _), step_closer (.inr hcomma)]
    simp [State.close, closeSum, closeProduct, closePowers, readCloser, hcomma]
  rw [State.run_cons, step, ok_bind]
  have hsecond := second (.call (.binary f) opening.column [t] :: frames) two hnest htwo
  rw [level_cons_of_nests rfl] at hsecond
  have top : max (level frames + 1 + n) (level frames + 1 + m) =
      level frames + (1 + max n m) := by omega
  refine top ▸ (hsecond.second finite fits).close hclose (fun _ => rfl) ?_
  simp [readCloser, hclose, finishCall]

/-- The frame that holds the left operand of an operator while the right one is read. -/
def waiting (op : BinaryOp) (left : Expr) : Frame :=
  match op with
  | .pow => .power left
  | .mul | .div => .product op left
  | .add | .sub | .call _ => .sum op left

/-- How many levels deeper the right operand of an operator stands than the left one. -/
def rightLevel : BinaryOp → Nat
  | .pow => 1
  | _ => 0

theorem level_waiting (op : BinaryOp) (left : Expr) (frames : List Frame) :
    level (waiting op left :: frames) = level frames + rightLevel op := by
  cases op with
  | pow => exact level_cons_of_nests rfl
  | mul | div => exact level_product _ _ _
  | add | sub | call f => exact level_sum _ _ _

theorem nesting_binary (op : BinaryOp) (a b : Expr) :
    (binary op a b).nesting = 1 + max a.nesting (rightLevel op + b.nesting) := by
  cases op <;> simp [nesting, rightLevel]

theorem finishOperand_waiting (op : BinaryOp) (left : Expr) (frames : List Frame) (e : Expr)
    (bare : Option (String × Nat)) : finishOperand (waiting op left :: frames) e bare =
      .complete (waiting op left :: frames) e bare := by
  cases op <;> rfl

/-- An operator after its left operand, in parentheses. -/
theorem step_operator {op : BinaryOp} (isSign : ∀ f, op ≠ .call f) {token : Token}
    (kind : token.kind = op.kind) {column : Nat} {frames : List Frame}
    (h : level (.group column :: frames) ≤ limits.nesting) (e : Expr)
    (bare : Option (String × Nat)) :
    (State.complete (.group column :: frames) e bare).step limits token =
      nest limits (waiting op e) (.group column :: frames) >>= fun inner =>
        .ok (.operand inner) := by
  -- a chain goes no deeper, so for its frame there is nothing to refuse
  have chain (h' : rightLevel op = 0) : nest limits (waiting op e) (.group column :: frames) =
      .ok (waiting op e :: .group column :: frames) := by
    rw [nest, level_waiting, h', Nat.add_zero, if_pos h]
  -- in parentheses there is no chain to close before the operator
  cases op with
  | add | sub =>
    rw [chain rfl, step_sumOp ((congrArg sumOp? kind).trans rfl)]
    rfl
  | mul | div =>
    rw [chain rfl, step_productOp ((congrArg productOp? kind).trans rfl)]
    rfl
  | pow =>
    rw [step_caret kind]
    rfl
  | call f => exact absurd rfl (isSign f)

/-- The end of an operation in parentheses. -/
theorem closeSum_waiting {op : BinaryOp} {a b : Expr}
    (h : (binary op a b).depth ≤ limits.depth) (column : Nat) (frames : List Frame) :
    closeSum limits (waiting op a :: .group column :: frames) b =
      .ok (.group column :: frames, .binary op a b) := by
  have joined : chain limits op a b = .ok (.binary op a b) := if_pos h
  cases op with
  | pow => rfl
  | mul | div =>
    simp only [waiting, closeSum, closeProduct, closePowers, joined, ok_bind]
    rfl
  | add | sub | call f =>
    simp only [waiting, closeSum, closeProduct, closePowers, joined, ok_bind]
    rfl

/-- An operation in parentheses. -/
theorem ReadsBack.operation {op : BinaryOp} (isSign : ∀ f, op ≠ .call f)
    (hdepth : limits.nesting ≤ limits.depth) (left : ReadsBack limits ks ns n t)
    (right : ReadsBack limits js ms m u) (ht : t.depth ≤ 1 + n) (hu : u.depth ≤ 1 + m) :
    ReadsBack limits (.lparen :: (ks ++ op.kind :: (js ++ [.rparen]))) (ns ++ ms)
      (1 + max n (rightLevel op + m)) (.binary op t u) := by
  intro frames tokens hl hts
  obtain ⟨opening, one, sign, two, closing, rfl, hopen, hone, hsign, htwo, hclose⟩ :=
    exists_enclosed_two hts
  rw [State.run_cons, step_lparen hopen, bind_assoc]
  refine Reading.nest (by rw [level_cons_of_nests rfl]; omega) fun hnest => ?_
  have hleft := left (.group opening.column :: frames) one hnest hone
  rw [level_cons_of_nests rfl] at hleft
  rw [ok_bind, State.run_append]
  refine hleft.bind (by omega) (List.subset_append_left _ _) ?_
  rintro _ ⟨bare, rfl⟩ finite fits
  rw [finishOperand, applySigns_of_admits (Nat.zero_le _), State.run_cons,
    step_operator isSign hsign hnest, bind_assoc]
  have hlevel : level (waiting op t :: .group opening.column :: frames) =
      level frames + 1 + rightLevel op := by
    rw [level_waiting, level_cons_of_nests rfl]
  refine Reading.nest (by omega) fun hnest' => ?_
  have hright := right (waiting op t :: .group opening.column :: frames) two hnest' htwo
  rw [hlevel] at hright
  simp only [finishOperand_waiting] at hright
  have top : max (level frames + 1 + n) (level frames + 1 + rightLevel op + m) =
      level frames + (1 + max n (rightLevel op + m)) := by omega
  rw [ok_bind, ← top]
  have close (hfits : max (level frames + 1 + n) (level frames + 1 + rightLevel op + m) ≤
      limits.nesting) : closeSum limits (waiting op t :: .group opening.column :: frames) u =
        .ok (.group opening.column :: frames, .binary op t u) := by
    refine closeSum_waiting ?_ opening.column frames
    -- a tree is at most one deeper than its text is nested, and the text fits
    have outside : 1 ≤ level frames := Nat.le_add_right 1 _
    rw [depth]
    omega
  refine (hright.second finite fits).close hclose close ?_
  simp [readCloser, hclose]

end Rules

/-! ### Numbers -/

/-- A number without its sign. -/
theorem readsBack_unsignedKind {v : Float} {t : Expr} (h : v.isFinite = true → t = .const v.abs) :
    ReadsBack limits [Number.unsignedKind v] [v] 0 t := by
  cases finite : v.isFinite with
  | true =>
    rw [Number.unsignedKind, if_pos finite, h finite]
    exact .token (fun _ _ => ⟨none, rfl⟩) (by simp [finite])
  | false =>
    rw [Number.unsignedKind, finite]
    exact .word (by decide) fun h => absurd (h v List.mem_cons_self) (by simp [finite])

/-- A number with its sign. -/
theorem readsBack_numberKinds (v : Float) :
    ReadsBack limits (Number.kinds v) [v] (if Binary64.signBit v then 1 else 0)
      (const v).norm := by
  unfold Number.kinds norm
  split
  · rename_i nan
    refine .word (by decide) fun h => ?_
    rw [Binary64.isNaN_of_isFinite (h v List.mem_cons_self)] at nan
    cases nan
  · cases hsign : Binary64.signBit v with
    | true =>
      refine ReadsBack.minus (readsBack_unsignedKind fun finite => ?_)
      rw [Binary64.abs_of_signBit finite hsign]
    | false =>
      refine readsBack_unsignedKind fun finite => ?_
      rw [Binary64.abs_of_signBit_false finite hsign]
      rfl

/-! ### All formulas -/

/-- What is written begins with a token, and not with a closing parenthesis. -/
theorem kinds_eq_cons (t : Expr) : ∃ k rest, t.kinds = k :: rest ∧ k ≠ .rparen := by
  cases t with
  | const v =>
    unfold kinds Number.kinds Number.unsignedKind
    split
    · exact ⟨_, _, rfl, by simp⟩
    · split
      · exact ⟨_, _, rfl, by simp⟩
      · split <;> exact ⟨_, _, rfl, by simp⟩
  | var | named c => exact ⟨_, _, rfl, by simp⟩
  | unary op a => cases op <;> exact ⟨_, _, rfl, by simp⟩
  | binary op a b => cases op <;> exact ⟨_, _, rfl, by simp⟩

/-- **What is written is read back**, inside of any frames, unless that is too deep or some
number is not finite. -/
theorem readsBack (hdepth : limits.nesting ≤ limits.depth) (t : Expr) :
    ReadsBack limits t.kinds t.numbers t.nesting t.norm := by
  induction t with
  | const v =>
    have number : ReadsBack limits (Number.kinds v) _ _ _ := readsBack_numberKinds v
    unfold kinds nesting
    split
    · rw [if_pos ‹_›] at number
      exact number.group
    · rwa [if_neg ‹_›] at number
  | var =>
    exact .token (fun _ column => ⟨some (Builtin.variableName, column), rfl⟩) (by simp [numbers])
  | named c =>
    have name : Builtin.ofName? c.name = some (.constant c) := Builtin.ofName?_name (.constant c)
    exact .token (fun _ column => ⟨some (c.name, column), by simp [readOperand, name, norm]⟩)
      (by simp [numbers])
  | unary op a ih =>
    cases op with
    | neg =>
      have h := ih.minus.group
      rwa [← Nat.add_assoc] at h
    | call f => exact .callUnary a.kinds_eq_cons ih
  | binary op a b iha ihb =>
    cases op with
    | call f => exact .callBinary a.kinds_eq_cons iha ihb
    | _ =>
      rw [nesting_binary]
      exact .operation (by simp) hdepth iha ihb a.depth_norm_le b.depth_norm_le

/-- A whole formula. -/
theorem reading_ofTokens (hdepth : limits.nesting ≤ limits.depth) (hn : 1 ≤ limits.nesting)
    {t : Expr} {tokens : List Token} (kinds : tokens.map Token.kind = t.kinds) :
    Reading limits t.numbers (1 + t.nesting) (· = t.norm) (ofTokensWithin limits tokens) := by
  refine (readsBack hdepth t [] tokens hn kinds).bind (Nat.le_refl _) (fun _ => id) ?_
  rintro _ ⟨bare, rfl⟩ finite fits
  exact .read finite fits rfl

/-- A text that spells some tokens is read as these tokens are. -/
theorem exists_parse_eq {cs : List Char} {k : Kind} {ks : List Kind}
    (h : Token.Spells cs (k :: ks) []) :
    ∃ tokens, tokens.map Token.kind = k :: ks ∧ parse (String.ofList cs) = ofTokens tokens := by
  obtain ⟨tokens, hkinds, hscan⟩ := h.scan
  refine ⟨tokens, hkinds, ?_⟩
  -- the text is not empty, so the reader gets to see the tokens
  have nonempty : tokens.isEmpty = false := by
    cases tokens with
    | nil => cases hkinds
    | cons token tokens => rfl
  rw [parse, hscan, ok_bind, nonempty]
  rfl

/-- **Reading the text of a formula**: it is read, or it is nested too deeply, or some number in it
is not finite. -/
theorem reading_parse_text (t : Expr) :
    Reading .standard t.numbers (1 + t.nesting) (· = t.norm) (parse t.text) := by
  obtain ⟨k, rest, hcons, -⟩ := t.kinds_eq_cons
  obtain ⟨tokens, hkinds, hparse⟩ := exists_parse_eq (hcons ▸ spells_chars t .nil)
  rw [text, hparse]
  exact reading_ofTokens (by decide) (by decide) (hkinds.trans hcons.symm)

/-- **Round trip.** The text of a formula is read if and only if all of its numbers are finite
and no operand stands at a level above 256, and then it is read as the same formula, with the
sign of every number as a negation. That has the same values, and is the formula itself if no
number has its sign bit set. A formula of finite numbers whose text is nested more deeply is
refused as too deep. -/
theorem parse_text (t : Expr) :
    (∀ u, parse t.text = .ok u ↔
      u = t.norm ∧ (∀ v ∈ t.numbers, v.isFinite = true) ∧ 1 + t.nesting ≤ 256) ∧
    ((∀ v ∈ t.numbers, Binary64.signBit v = false) → t.norm = t) ∧
    (∀ x, t.norm.eval x = t.eval x) ∧
    ((∀ v ∈ t.numbers, v.isFinite = true) → 256 < 1 + t.nesting →
      parse t.text = .error (.tooDeep 256)) := by
  have reading := reading_parse_text t
  exact ⟨reading.eq_ok_iff, norm_eq_self, fun x => eval_norm x t, reading.eq_error⟩

end Expr

end CurvePlot
