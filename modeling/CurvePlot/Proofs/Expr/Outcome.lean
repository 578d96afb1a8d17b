import CurvePlot.Proofs.Expr.Grammar
import CurvePlot.Proofs.Failure

/-!
# What the reader makes of a phrase

A phrase of the grammar can be read in any surroundings that admit it. If its derivation fits
in the limits, the reader ends up, after closing what such a phrase closes, where it would be
if the tree of the phrase had been given to it at once; otherwise the reader stops with one of
its two limits, and that limit is broken (`Derives.outcome`). In particular a list of tokens
that the grammar derives is read as its tree, or refused as too deep
(`Derives.outcome_ofTokens`).

A chain that is too deep is only noticed when the chain is closed, which may happen one token
after the phrase. So what is described is never the state after a phrase by itself but the state
closed by `State.close`.
-/

namespace CurvePlot

namespace Expr

open Token (Kind)

variable {limits : Limits}

/-! ### Running -/

@[simp] theorem State.run_nil (s : State) : s.run limits [] = .ok s := rfl

theorem State.run_cons (s : State) (t : Token) (ts : List Token) :
    s.run limits (t :: ts) = s.step limits t >>= fun s' => s'.run limits ts := rfl

theorem State.run_append (s : State) (ts us : List Token) :
    s.run limits (ts ++ us) = s.run limits ts >>= fun s' => s'.run limits us := by
  simp [State.run, List.foldlM_append]

/-! ### Tokens of given kinds -/

/-- Tokens between two tokens. -/
theorem exists_enclosed {tokens : List Token} {k k' : Kind} {ks : List Kind}
    (h : tokens.map Token.kind = k :: (ks ++ [k'])) :
    ∃ opening inner closing, tokens = opening :: (inner ++ [closing]) ∧ opening.kind = k ∧
      inner.map Token.kind = ks ∧ closing.kind = k' := by
  obtain ⟨opening, rest, rfl, hopen, hrest⟩ := List.map_eq_cons_iff.mp h
  obtain ⟨inner, last, rfl, hinner, hlast⟩ := List.map_eq_append_iff.mp hrest
  obtain ⟨closing, rfl, hclose⟩ := List.map_eq_singleton_iff.mp hlast
  exact ⟨opening, inner, closing, rfl, hopen, hinner, hclose⟩

/-- Two parts and what separates them, between two tokens. -/
theorem exists_enclosed_two {tokens : List Token} {k s k' : Kind} {ks js : List Kind}
    (h : tokens.map Token.kind = k :: (ks ++ s :: (js ++ [k']))) :
    ∃ opening one separator two closing,
      tokens = opening :: (one ++ separator :: (two ++ [closing])) ∧ opening.kind = k ∧
        one.map Token.kind = ks ∧ separator.kind = s ∧ two.map Token.kind = js ∧
          closing.kind = k' := by
  obtain ⟨opening, rest, rfl, hopen, hrest⟩ := List.map_eq_cons_iff.mp h
  obtain ⟨one, rest, rfl, hone, hrest⟩ := List.map_eq_append_iff.mp hrest
  obtain ⟨separator, two, closing, rfl, hseparator, htwo, hclose⟩ := exists_enclosed hrest
  exact ⟨opening, one, separator, two, closing, rfl, hopen, hone, hseparator, htwo, hclose⟩

/-! ### Closing phrases -/

/-- Let a product take its right operand, if that is what stands outside. -/
def joinProduct (limits : Limits) : List Frame × Expr → Except ParseError (List Frame × Expr)
  | (.product op left :: outer, right) => do
    let joined ← chain limits op left right
    return (outer, joined)
  | closed => .ok closed

/-- Let a sum take its right operand, if that is what stands outside. -/
def joinSum (limits : Limits) : List Frame × Expr → Except ParseError (List Frame × Expr)
  | (.sum op left :: outer, right) => do
    let joined ← chain limits op left right
    return (outer, joined)
  | closed => .ok closed

theorem joinProduct_of_admits {frames : List Frame} (h : Admits frames .product) (e : Expr) :
    joinProduct limits (frames, e) = .ok (frames, e) := by
  unfold joinProduct
  split
  · rename_i heq
    cases heq
    simp [Admits, slot, Phrase.rank] at h
  · rfl

theorem joinSum_of_admits {frames : List Frame} (h : Admits frames .sum) (e : Expr) :
    joinSum limits (frames, e) = .ok (frames, e) := by
  unfold joinSum
  split
  · rename_i heq
    cases heq
    simp [Admits, slot, Phrase.rank] at h
  · rfl

/-- Close what the end of a phrase of a given kind closes. -/
def State.close (limits : Limits) (c : Phrase) : State → Except ParseError (List Frame × Expr)
  | .complete frames e _ =>
    match c with
    | .operand | .signed => .ok (frames, e)
    | .power => .ok (closePowers frames e)
    | .product => closeProduct limits frames e
    | .sum => closeSum limits frames e
  | _ => .error .unexpectedEnd

theorem bind_close_signed (r : Except ParseError State) :
    r >>= State.close limits .signed = r >>= State.close limits .operand := by
  congr 1

theorem bind_close_power (r : Except ParseError State) :
    r >>= State.close limits .power =
      r >>= State.close limits .signed >>= fun p => .ok (closePowers p.1 p.2) := by
  rcases r with _ | _ | _ | _ | _ <;> rfl

theorem bind_close_product (r : Except ParseError State) :
    r >>= State.close limits .product = r >>= State.close limits .power >>= joinProduct limits := by
  rcases r with _ | _ | _ | _ | _ <;> rfl

theorem bind_close_sum (r : Except ParseError State) :
    r >>= State.close limits .sum = r >>= State.close limits .product >>= joinSum limits := by
  rcases r with _ | _ | _ | _ | _ <;> rfl

/-- Where the reader is once a phrase with the tree `t` has been closed inside of `frames`. -/
def settle : Phrase → List Frame → Expr → List Frame × Expr
  | .operand, frames, t => applySigns frames t
  | .signed, frames, t => applySigns frames t
  | .power, frames, t => closePowers frames t
  | .product, frames, t => (frames, t)
  | .sum, frames, t => (frames, t)

/-! ### One token after a phrase -/

theorem step_productOp {t : Token} {op : BinaryOp} (h : productOp? t.kind = some op)
    (frames : List Frame) (e : Expr) (bare : Option (String × Nat)) :
    (State.complete frames e bare).step limits t =
      (State.complete frames e bare).close limits .product >>= fun p =>
        .ok (.operand (.product op p.2 :: p.1)) := by
  obtain ⟨kind, column⟩ := t
  cases kind <;> simp [productOp?] at h <;> subst h <;> rcases bare with _ | ⟨_, _⟩ <;> rfl

theorem step_sumOp {t : Token} {op : BinaryOp} (h : sumOp? t.kind = some op)
    (frames : List Frame) (e : Expr) (bare : Option (String × Nat)) :
    (State.complete frames e bare).step limits t =
      (State.complete frames e bare).close limits .sum >>= fun p =>
        .ok (.operand (.sum op p.2 :: p.1)) := by
  obtain ⟨kind, column⟩ := t
  cases kind <;> simp [sumOp?] at h <;> subst h <;> rcases bare with _ | ⟨_, _⟩ <;> rfl

theorem step_caret {t : Token} (h : t.kind = .caret) (frames : List Frame) (e : Expr)
    (bare : Option (String × Nat)) :
    (State.complete frames e bare).step limits t =
      (State.complete frames e bare).close limits .signed >>= fun p =>
        State.operand <$> nest limits (.power p.2) p.1 := by
  obtain ⟨kind, column⟩ := t
  subst h
  rcases bare with _ | ⟨_, _⟩ <;> rfl

theorem step_closer {t : Token} (h : t.kind = .rparen ∨ t.kind = .comma) (frames : List Frame)
    (e : Expr) (bare : Option (String × Nat)) :
    (State.complete frames e bare).step limits t =
      (State.complete frames e bare).close limits .sum >>= fun p => readCloser p.1 p.2 t := by
  obtain ⟨kind, column⟩ := t
  rcases h with h | h <;> subst h <;> rcases bare with _ | ⟨_, _⟩ <;> rfl

/-- A token that opens a frame. -/
theorem step_opening {t : Token} {frame : Frame} {frames : List Frame}
    (h : readOperand limits frames t = State.operand <$> nest limits frame frames) :
    (State.operand frames).step limits t =
      nest limits frame frames >>= fun inner => .ok (.operand inner) := by
  rw [State.step, h]
  cases nest limits frame frames <;> rfl

theorem step_lparen {t : Token} (h : t.kind = .lparen) (frames : List Frame) :
    (State.operand frames).step limits t =
      nest limits (.group t.column) frames >>= fun inner => .ok (.operand inner) :=
  step_opening (by rw [readOperand, h])

/-! ### Outcomes -/

/-- The three **outcomes** of reading a phrase: it fits in the limits and gives `a`, or one of
the limits is broken and says so. -/
inductive Outcome {α : Type} (limits : Limits) (ls : List Nat) (t : Expr) :
    Except ParseError α → α → Prop where
  | fits {a : α} (fits : FitsIn limits ls t) : Outcome limits ls t (.ok a) a
  | tooNested {a : α} (broken : ∃ l ∈ ls, limits.nesting < l) :
    Outcome limits ls t (.error (.tooDeep limits.nesting)) a
  | tooLong {a : α} (broken : ¬ t.ChainsWithin limits.depth) :
    Outcome limits ls t (.error (.tooDeep limits.depth)) a

/-- Go on from an outcome. A broken limit stays broken in the phrase that the first one is a
part of. -/
theorem Outcome.bind {α β : Type} {ls ms : List Nat} {t u : Expr} {r : Except ParseError α}
    {a : α} {b : β} {f : α → Except ParseError β} (h : Outcome limits ls t r a)
    (levels : ls ⊆ ms) (chains : u.ChainsWithin limits.depth → t.ChainsWithin limits.depth)
    (next : FitsIn limits ls t → Outcome limits ms u (f a) b) :
    Outcome limits ms u (r >>= f) b := by
  cases h with
  | fits fits => exact next fits
  | tooNested broken =>
    obtain ⟨l, hl, hlt⟩ := broken
    exact .tooNested ⟨l, levels hl, hlt⟩
  | tooLong broken => exact .tooLong fun hu => broken (chains hu)

/-- An outcome is also one for a phrase that the first one is a part of. -/
theorem Outcome.widen {α : Type} {ls ms : List Nat} {t u : Expr} {r : Except ParseError α} {a : α}
    (h : Outcome limits ls t r a) (levels : ls ⊆ ms)
    (chains : u.ChainsWithin limits.depth → t.ChainsWithin limits.depth)
    (fits : FitsIn limits ls t → FitsIn limits ms u) : Outcome limits ms u r a := by
  cases h with
  | fits h => exact .fits (fits h)
  | tooNested broken =>
    obtain ⟨l, hl, hlt⟩ := broken
    exact .tooNested ⟨l, levels hl, hlt⟩
  | tooLong broken => exact .tooLong fun hu => broken (chains hu)

/-- Go on from an outcome without looking at anything new. -/
theorem Outcome.bind_ok {α β : Type} {ls : List Nat} {t : Expr} {r : Except ParseError α}
    {a : α} {b : β} {f : α → Except ParseError β} (h : Outcome limits ls t r a)
    (next : f a = .ok b) : Outcome limits ls t (r >>= f) b :=
  h.bind (fun _ => id) id fun fits => next ▸ .fits fits

/-- Within the limits there is only one outcome. -/
theorem Outcome.eq_ok {α : Type} {ls : List Nat} {t : Expr} {r : Except ParseError α} {a : α}
    (h : Outcome limits ls t r a) (fits : FitsIn limits ls t) : r = .ok a := by
  cases h with
  | fits _ => rfl
  | tooNested broken =>
    obtain ⟨l, hl, hlt⟩ := broken
    exact absurd (fits.level_le l hl) (by omega)
  | tooLong broken => exact absurd fits.chains broken

/-- What the token after a phrase does is what it does once the phrase is closed. -/
theorem Outcome.bind_step {ls : List Nat} {t : Expr} {r : Except ParseError State}
    {a : List Frame × Expr} {c : Phrase} {g : List Frame × Expr → Except ParseError State}
    {token : Token} (h : Outcome limits ls t (r >>= State.close limits c) a)
    (step : ∀ frames e bare, (State.complete frames e bare).step limits token =
      (State.complete frames e bare).close limits c >>= g) :
    (r >>= fun s => s.step limits token) = r >>= State.close limits c >>= g := by
  cases r with
  | error e => rfl
  | ok s =>
    cases s with
    | complete frames e bare => exact step frames e bare
    | _ => simp only [ok_bind, State.close] at h; cases h

theorem Outcome.nest {α : Type} {ls : List Nat} {t : Expr} {a : α} {frame : Frame}
    {frames : List Frame} {f : List Frame → Except ParseError α} (nests : frame.nests = true)
    (deep : ∃ m ∈ ls, level frames + 1 ≤ m)
    (next : level frames + 1 ≤ limits.nesting → Outcome limits ls t (f (frame :: frames)) a) :
    Outcome limits ls t (Expr.nest limits frame frames >>= f) a := by
  unfold Expr.nest
  rw [level_cons_of_nests nests]
  split
  · exact next ‹_›
  · obtain ⟨m, hm, hl⟩ := deep
    exact .tooNested ⟨m, hm, by omega⟩

/-- A chain is joined, or is too deep. -/
theorem Outcome.chain {ls : List Nat} {op : BinaryOp} {left right : Expr}
    (isChain : op.isChain = true) (levels : ∀ l ∈ ls, l ≤ limits.nesting)
    (hleft : left.ChainsWithin limits.depth) (hright : right.ChainsWithin limits.depth) :
    Outcome limits ls (.binary op left right) (Expr.chain limits op left right)
      (.binary op left right) := by
  unfold Expr.chain
  split
  · exact .fits ⟨levels, fun _ => ‹_›, hleft, hright⟩
  · exact .tooLong fun h => absurd (h.1 isChain) ‹_›

/-! ### Operands -/

theorem State.run_singleton (s : State) (t : Token) : s.run limits [t] = s.step limits t := by
  rw [State.run_cons]
  cases s.step limits t <;> rfl

theorem close_finishOperand (frames : List Frame) (e : Expr) (bare : Option (String × Nat)) :
    (finishOperand frames e bare).close limits .operand = .ok (applySigns frames e) := rfl

/-- **Reading a phrase**: inside of any frames that admit it, the tokens `ts` are as good as the
tree `t`, unless a limit is broken in them. -/
def ReadsAs (limits : Limits) (c : Phrase) (l : Nat) (ts : List Kind) (t : Expr)
    (ls : List Nat) : Prop :=
  ∀ (frames : List Frame) (tokens : List Token), level frames = l → l ≤ limits.nesting →
    Admits frames c → tokens.map Token.kind = ts →
      Outcome limits ls t (State.run limits (.operand frames) tokens >>= State.close limits c)
        (settle c frames t)

/-- An operand that is one token. -/
theorem ReadsAs.token {l : Nat} {k : Kind} {t : Expr} (ht : t.ChainsWithin limits.depth)
    (step : ∀ frames column, ∃ bare, readOperand limits frames ⟨k, column⟩ =
      .ok (finishOperand frames t bare)) : ReadsAs limits .operand l [k] t [l] := by
  intro frames tokens _ hn _ hts
  obtain ⟨token, rfl, rfl⟩ := List.map_eq_singleton_iff.mp hts
  obtain ⟨bare, step⟩ := step frames token.column
  rw [State.run_singleton, State.step, step, ok_bind, close_finishOperand]
  exact .fits ⟨by simpa using hn, ht⟩

/-- A closing token after a phrase is read once the phrase is closed. -/
theorem Outcome.run_closer {ls : List Nat} {t : Expr} {s : State} {tokens : List Token}
    {a : List Frame × Expr} {token : Token}
    (h : Outcome limits ls t (s.run limits tokens >>= State.close limits .sum) a)
    (kind : token.kind = .rparen ∨ token.kind = .comma) :
    s.run limits (tokens ++ [token]) =
      s.run limits tokens >>= State.close limits .sum >>= fun p => readCloser p.1 p.2 token := by
  rw [State.run_append, ← h.bind_step (step_closer kind)]
  simp only [State.run_singleton]

/-- The end of an operand in parentheses, given the outcome of what stands before it. -/
theorem Outcome.closeOperand {l : Nat} {ls ms : List Nat} {t u : Expr} {s : State}
    {tokens : List Token} {frames : List Frame} {a : List Frame × Expr} {token : Token}
    (h : Outcome limits ls t (s.run limits tokens >>= State.close limits .sum) a)
    (kind : token.kind = .rparen)
    (step : readCloser a.1 a.2 token = .ok (finishOperand frames u none))
    (levels : ls ⊆ ms) (chains : u.ChainsWithin limits.depth → t.ChainsWithin limits.depth)
    (fits : FitsIn limits ls t → FitsIn limits (l :: ms) u) :
    Outcome limits (l :: ms) u
      (s.run limits (tokens ++ [token]) >>= State.close limits .operand)
      (settle .operand frames u) := by
  rw [h.run_closer (.inl kind), bind_assoc]
  refine h.bind (fun m hm => List.mem_cons_of_mem _ (levels hm)) chains fun hfit => ?_
  rw [step, ok_bind, close_finishOperand]
  exact .fits (fits hfit)

theorem ReadsAs.group {l : Nat} {ts : List Kind} {t : Expr} {ls : List Nat}
    (inside : ReadsAs limits .sum (l + 1) ts t ls) (deep : ∃ m ∈ ls, l + 1 ≤ m) :
    ReadsAs limits .operand l (.lparen :: (ts ++ [.rparen])) t (l :: ls) := by
  intro frames tokens hl hn _ hts
  obtain ⟨opening, inner, closing, rfl, hopen, hinner, hclose⟩ := exists_enclosed hts
  obtain ⟨m, hm, hlm⟩ := deep
  rw [State.run_cons, step_lparen hopen, bind_assoc, bind_assoc]
  refine Outcome.nest rfl ⟨m, List.mem_cons_of_mem _ hm, by omega⟩ fun hnest => ?_
  have hin := inside (.group opening.column :: frames) inner
    (by rw [level_cons_of_nests rfl, hl]) (by omega) (Nat.zero_le _) hinner
  refine hin.closeOperand hclose ?_ (fun _ => id) id fun hfit => ?_
  · simp [settle, readCloser, hclose]
  · exact ⟨by simpa using ⟨hn, hfit.level_le⟩, hfit.chains⟩

/-! ### Calls -/

/-- The first token after the parenthesis of a call begins an argument. -/
theorem run_arguments {f : Callable} {column : Nat} {frames : List Frame} {tokens : List Token}
    {k : Kind} {rest : List Kind} (htokens : tokens.map Token.kind = k :: rest)
    (hk : k ≠ .rparen) :
    State.run limits (.arguments frames f column) tokens =
      nest limits (.call f column []) frames >>= fun inner =>
        State.run limits (.operand inner) tokens := by
  obtain ⟨token, tokens, rfl, rfl, -⟩ := List.map_eq_cons_iff.mp htokens
  have step : (State.arguments frames f column).step limits token =
      nest limits (.call f column []) frames >>= fun inner => readOperand limits inner token := by
    simp [State.step, hk]
  rw [State.run_cons, step, bind_assoc]
  rfl

/-- A call is read by its name and parenthesis and then by what stands in the parentheses. -/
theorem run_call {s : String} {f : Callable} {frames : List Frame} {head opening : Token}
    {tokens : List Token} (name : Builtin.ofName? s = some (.callable f))
    (hhead : head.kind = .name s) (hopen : opening.kind = .lparen) :
    State.run limits (.operand frames) (head :: opening :: tokens) =
      State.run limits (.arguments frames f opening.column) tokens := by
  simp [State.run_cons, State.step, readOperand, hhead, hopen, name]

theorem ReadsAs.callUnary {l : Nat} {s : String} {f : UnaryFunction} {ts : List Kind} {a : Expr}
    {ls : List Nat} (name : Builtin.ofName? s = some (.callable (.unary f)))
    (argument : ReadsAs limits .sum (l + 1) ts a ls)
    (start : ∃ k rest, ts = k :: rest ∧ k ≠ .rparen) (deep : ∃ m ∈ ls, l + 1 ≤ m) :
    ReadsAs limits .operand l (.name s :: .lparen :: (ts ++ [.rparen])) (.unary (.call f) a)
      (l :: ls) := by
  intro frames tokens hl hn _ hts
  obtain ⟨head, rest, rfl, hhead, hrest⟩ := List.map_eq_cons_iff.mp hts
  obtain ⟨opening, inner, closing, rfl, hopen, hinner, hclose⟩ := exists_enclosed hrest
  obtain ⟨k, more, rfl, hk⟩ := start
  obtain ⟨m, hm, hlm⟩ := deep
  rw [run_call name hhead hopen, run_arguments (by rw [List.map_append, hinner]; rfl) hk,
    bind_assoc]
  refine Outcome.nest rfl ⟨m, List.mem_cons_of_mem _ hm, by omega⟩ fun hnest => ?_
  have harg := argument (.call (.unary f) opening.column [] :: frames) inner
    (by rw [level_cons_of_nests rfl, hl]) (by omega) (Nat.zero_le _) hinner
  refine harg.closeOperand hclose ?_ (fun _ => id) (fun h => h) fun hfit => ?_
  · simp [settle, readCloser, hclose, finishCall]
  · exact ⟨by simpa using ⟨hn, hfit.level_le⟩, hfit.chains⟩

theorem ReadsAs.callBinary {l : Nat} {s : String} {f : BinaryFunction} {ts us : List Kind}
    {a b : Expr} {ls ms : List Nat} (name : Builtin.ofName? s = some (.callable (.binary f)))
    (first : ReadsAs limits .sum (l + 1) ts a ls) (second : ReadsAs limits .sum (l + 1) us b ms)
    (start : ∃ k rest, ts = k :: rest ∧ k ≠ .rparen) (deep : ∃ m ∈ ls, l + 1 ≤ m) :
    ReadsAs limits .operand l (.name s :: .lparen :: (ts ++ .comma :: (us ++ [.rparen])))
      (.binary (.call f) a b) (l :: (ls ++ ms)) := by
  intro frames tokens hl hn _ hts
  obtain ⟨head, rest, rfl, hhead, hrest⟩ := List.map_eq_cons_iff.mp hts
  obtain ⟨opening, one, comma, two, closing, rfl, hopen, hone, hcomma, htwo, hclose⟩ :=
    exists_enclosed_two hrest
  obtain ⟨k, more, rfl, hk⟩ := start
  obtain ⟨m, hm, hlm⟩ := deep
  rw [run_call name hhead hopen, run_arguments (by rw [List.map_append, hone]; rfl) hk, bind_assoc]
  refine Outcome.nest rfl ⟨m, by simp [hm], by omega⟩ fun hnest => ?_
  have hfirst := first (.call (.binary f) opening.column [] :: frames) one
    (by rw [level_cons_of_nests rfl, hl]) (by omega) (Nat.zero_le _) hone
  -- the comma closes the first argument, and the second one is read inside of the same frames
  rw [List.append_cons, State.run_append, hfirst.run_closer (.inr hcomma), bind_assoc, bind_assoc]
  refine hfirst.bind (fun m hm => by simp [hm]) (fun h => h.2.1) fun hfit => ?_
  have next : readCloser (.call (.binary f) opening.column [] :: frames) a comma =
      .ok (.operand (.call (.binary f) opening.column [a] :: frames)) := by
    simp [readCloser, hcomma]
  simp only [settle, next, ok_bind]
  have hsecond := second (.call (.binary f) opening.column [a] :: frames) two
    (by rw [level_cons_of_nests rfl, hl]) (by omega) (Nat.zero_le _) htwo
  refine hsecond.closeOperand hclose ?_ (fun _ => List.mem_append_right _) (fun h => h.2.2)
    fun hfit' => ⟨?_, fun h => by simp [BinaryOp.isChain] at h, hfit.chains, hfit'.chains⟩
  · simp [settle, readCloser, hclose, finishCall]
  · simp only [List.mem_cons, List.mem_append]
    rintro m (rfl | hm | hm)
    · exact hn
    · exact hfit.level_le m hm
    · exact hfit'.level_le m hm

/-! ### Signs, powers and chains -/

theorem ReadsAs.sign {l : Nat} {k : Kind} {negates : Bool} {ts : List Kind} {t u : Expr}
    {ls : List Nat} (inside : ReadsAs limits .signed (l + 1) ts t ls) (deep : ∃ m ∈ ls, l + 1 ≤ m)
    (step : ∀ frames column, readOperand limits frames ⟨k, column⟩ =
      State.operand <$> nest limits (.sign negates) frames)
    (signs : ∀ frames, applySigns (.sign negates :: frames) t = applySigns frames u)
    (chains : u.ChainsWithin limits.depth ↔ t.ChainsWithin limits.depth) :
    ReadsAs limits .signed l (k :: ts) u ls := by
  intro frames tokens hl hn _ hts
  obtain ⟨token, rest, rfl, rfl, hrest⟩ := List.map_eq_cons_iff.mp hts
  obtain ⟨m, hm, hlm⟩ := deep
  rw [State.run_cons, step_opening (step frames token.column), bind_assoc, bind_assoc]
  refine Outcome.nest rfl ⟨m, hm, by omega⟩ fun hnest => ?_
  have hin := inside (.sign negates :: frames) rest (by rw [level_cons_of_nests rfl, hl])
    (by omega) (admits_signed _) hrest
  rw [settle, signs] at hin
  exact hin.widen (fun _ => id) chains.mp fun h => ⟨h.level_le, chains.mpr h.chains⟩

theorem ReadsAs.signedOfOperand {l : Nat} {ts : List Kind} {t : Expr} {ls : List Nat}
    (h : ReadsAs limits .operand l ts t ls) : ReadsAs limits .signed l ts t ls := by
  intro frames tokens hl hn ha hts
  rw [bind_close_signed]
  exact h frames tokens hl hn (ha.of_le (by decide)) hts

theorem ReadsAs.powerOfSigned {l : Nat} {ts : List Kind} {t : Expr} {ls : List Nat}
    (h : ReadsAs limits .signed l ts t ls) : ReadsAs limits .power l ts t ls := by
  intro frames tokens hl hn ha hts
  have hbase := h frames tokens hl hn (ha.of_le (by decide)) hts
  rw [bind_close_power]
  exact hbase.bind_ok (by rw [settle, applySigns_of_admits ha]; rfl)

theorem ReadsAs.power {l : Nat} {ts us : List Kind} {a b : Expr} {ls ms : List Nat}
    (base : ReadsAs limits .signed l ts a ls) (exponent : ReadsAs limits .power (l + 1) us b ms)
    (deep : ∃ m ∈ ms, l + 1 ≤ m) :
    ReadsAs limits .power l (ts ++ .caret :: us) (.binary .pow a b) (ls ++ ms) := by
  intro frames tokens hl hn ha hts
  obtain ⟨one, rest, rfl, hone, hrest⟩ := List.map_eq_append_iff.mp hts
  obtain ⟨caret, two, rfl, hcaret, htwo⟩ := List.map_eq_cons_iff.mp hrest
  obtain ⟨m, hm, hlm⟩ := deep
  have hbase := base frames one hl hn (ha.of_le (by decide)) hone
  have step : (State.operand <$> nest limits (.power a) frames >>= fun s =>
      s.run limits two >>= State.close limits .power) =
      nest limits (.power a) frames >>= fun inner =>
        (State.operand inner).run limits two >>= State.close limits .power := by
    cases nest limits (.power a) frames <;> rfl
  rw [List.append_cons, State.run_append, State.run_append, bind_assoc]
  simp only [State.run_singleton]
  rw [← bind_assoc, hbase.bind_step (step_caret hcaret), bind_assoc, bind_assoc]
  refine hbase.bind (fun _ => List.mem_append_left _)
    (fun h : (binary .pow a b).ChainsWithin limits.depth => h.2.1) fun hfit => ?_
  rw [settle, applySigns_of_admits ha, step]
  refine Outcome.nest rfl ⟨m, List.mem_append_right _ hm, by omega⟩ fun hnest => ?_
  -- the exponent closes its base together with itself
  have hexp := exponent (.power a :: frames) two (by rw [level_cons_of_nests rfl, hl]) (by omega)
    (Nat.le_refl _) htwo
  refine hexp.widen (fun _ => List.mem_append_right _) (fun h => h.2.2) fun hfit' =>
    ⟨?_, fun h => by simp [BinaryOp.isChain] at h, hfit.chains, hfit'.chains⟩
  simp only [List.mem_append]
  rintro m (hm | hm)
  · exact hfit.level_le m hm
  · exact hfit'.level_le m hm

theorem ReadsAs.productOfPower {l : Nat} {ts : List Kind} {t : Expr} {ls : List Nat}
    (h : ReadsAs limits .power l ts t ls) : ReadsAs limits .product l ts t ls := by
  intro frames tokens hl hn ha hts
  have hfactor := h frames tokens hl hn (ha.of_le (by decide)) hts
  rw [bind_close_product]
  exact hfactor.bind_ok (by rw [settle, closePowers_of_admits ha, joinProduct_of_admits ha]; rfl)

theorem ReadsAs.sumOfProduct {l : Nat} {ts : List Kind} {t : Expr} {ls : List Nat}
    (h : ReadsAs limits .product l ts t ls) : ReadsAs limits .sum l ts t ls := by
  intro frames tokens hl hn ha hts
  have hterm := h frames tokens hl hn (ha.of_le (by decide)) hts
  rw [bind_close_sum]
  exact hterm.bind_ok (by rw [settle, joinSum_of_admits ha]; rfl)

/-- **A link of a chain**: behind the phrase `whole` the operator puts a frame that waits for a `part`,
and `join` closes that frame when the part is closed. -/
theorem ReadsAs.link {whole part : Phrase} {frame : Expr → Frame}
    {join : List Frame × Expr → Except ParseError (List Frame × Expr)} {l : Nat} {k : Kind}
    {op : BinaryOp} {ts us : List Kind} {a b : Expr} {ls ms : List Nat} (isChain : op.isChain = true)
    (step : ∀ token : Token, token.kind = k → ∀ frames e bare,
      (State.complete frames e bare).step limits token =
        (State.complete frames e bare).close limits whole >>= fun p =>
          .ok (.operand (frame p.2 :: p.1)))
    (settled : ∀ frames e, settle whole frames e = (frames, e))
    (admits : ∀ frames, Admits (frame a :: frames) part)
    (same_level : ∀ frames, level (frame a :: frames) = level frames)
    (closes : ∀ r : Except ParseError State,
      r >>= State.close limits whole = r >>= State.close limits part >>= join)
    (joins : ∀ frames, join (settle part (frame a :: frames) b) =
      Expr.chain limits op a b >>= fun e => .ok (frames, e))
    (left : ReadsAs limits whole l ts a ls) (right : ReadsAs limits part l us b ms) :
    ReadsAs limits whole l (ts ++ k :: us) (.binary op a b) (ls ++ ms) := by
  intro frames tokens hl hn ha hts
  obtain ⟨one, rest, rfl, hone, hrest⟩ := List.map_eq_append_iff.mp hts
  obtain ⟨token, two, rfl, hkind, htwo⟩ := List.map_eq_cons_iff.mp hrest
  have hleft := left frames one hl hn ha hone
  rw [List.append_cons, State.run_append, State.run_append, bind_assoc]
  simp only [State.run_singleton]
  rw [← bind_assoc, hleft.bind_step (step token hkind), bind_assoc, bind_assoc]
  refine hleft.bind (fun _ => List.mem_append_left _)
    (fun h : (binary op a b).ChainsWithin limits.depth => h.2.1) fun hfit => ?_
  rw [settled, ok_bind, settled, closes]
  have hright := right (frame a :: frames) two (by rw [same_level, hl]) hn (admits frames) htwo
  refine hright.bind (fun _ => List.mem_append_right _)
    (fun h : (binary op a b).ChainsWithin limits.depth => h.2.2) fun hfit' => ?_
  have levels : ∀ m ∈ ls ++ ms, m ≤ limits.nesting :=
    List.forall_mem_append.mpr ⟨hfit.level_le, hfit'.level_le⟩
  rw [joins]
  exact (Outcome.chain isChain levels hfit.chains hfit'.chains).bind_ok rfl

theorem ReadsAs.product {l : Nat} {k : Kind} {op : BinaryOp} {ts us : List Kind} {a b : Expr}
    {ls ms : List Nat} (operator : productOp? k = some op)
    (left : ReadsAs limits .product l ts a ls) (right : ReadsAs limits .power l us b ms) :
    ReadsAs limits .product l (ts ++ k :: us) (.binary op a b) (ls ++ ms) := by
  refine ReadsAs.link (isChain_of_productOp? operator) ?_ (fun _ _ => rfl) (fun _ => Nat.le_refl _)
    (level_product op a) bind_close_product (fun _ => rfl) left right
  intro token hkind
  exact step_productOp (hkind ▸ operator)

theorem ReadsAs.sum {l : Nat} {k : Kind} {op : BinaryOp} {ts us : List Kind} {a b : Expr}
    {ls ms : List Nat} (operator : sumOp? k = some op) (left : ReadsAs limits .sum l ts a ls)
    (right : ReadsAs limits .product l us b ms) :
    ReadsAs limits .sum l (ts ++ k :: us) (.binary op a b) (ls ++ ms) := by
  refine ReadsAs.link (isChain_of_sumOp? operator) ?_ (fun _ _ => rfl) (fun _ => Nat.le_refl _)
    (level_sum op a) bind_close_sum (fun _ => rfl) left right
  intro token hkind
  exact step_sumOp (hkind ▸ operator)

/-! ### All phrases -/

/-- **The outcome of a phrase.** Whatever the grammar derives is read as its tree, inside of any
frames that admit it, unless a limit is broken. -/
theorem Derives.readsAs {c : Phrase} {l : Nat} {ts : List Kind} {t : Expr} {ls : List Nat}
    (h : Derives c l ts t ls) : ReadsAs limits c l ts t ls := by
  induction h with
  | number l value => exact .token trivial fun _ _ => ⟨none, rfl⟩
  | @var s l name =>
    exact .token trivial fun _ column => ⟨some (s, column), by simp [readOperand, name]⟩
  | @named s c l name =>
    exact .token trivial fun _ column => ⟨some (s, column), by simp [readOperand, name]⟩
  | group inside ih => exact .group ih inside.exists_level
  | callUnary name argument ih =>
    exact .callUnary name ih argument.exists_cons argument.exists_level
  | callBinary name first second ihFirst ihSecond =>
    exact .callBinary name ihFirst ihSecond first.exists_cons first.exists_level
  | signedOfOperand _ ih => exact .signedOfOperand ih
  | minus inside ih => exact .sign ih inside.exists_level (fun _ _ => rfl) (fun _ => rfl) Iff.rfl
  | plus inside ih => exact .sign ih inside.exists_level (fun _ _ => rfl) (fun _ => rfl) Iff.rfl
  | powerOfSigned _ ih => exact .powerOfSigned ih
  | power _ exponent ihBase ihExponent => exact .power ihBase ihExponent exponent.exists_level
  | productOfPower _ ih => exact .productOfPower ih
  | product operator _ _ ihLeft ihRight => exact .product operator ihLeft ihRight
  | sumOfProduct _ ih => exact .sumOfProduct ih
  | sum operator _ _ ihLeft ihRight => exact .sum operator ihLeft ihRight

/-- The formula that is left when everything has been closed at the end of a text. -/
def closedFormula : List Frame × Expr → Except ParseError Expr
  | ([], whole) => .ok whole
  | (.group column :: _, _) => .error (.unclosedParen column)
  | (.call _ column _ :: _, _) => .error (.unclosedParen column)
  | _ => .error .unexpectedEnd

/-- **The outcome of a list of tokens** that the grammar derives: its tree, or a broken limit. -/
theorem Derives.outcome_ofTokens {tokens : List Token} {t : Expr} {ls : List Nat}
    (h : Derives .sum 1 (tokens.map Token.kind) t ls) (hn : 1 ≤ limits.nesting) :
    Outcome limits ls t (ofTokensWithin limits tokens) t := by
  have hrun := h.readsAs [] tokens rfl hn (Nat.le_refl _) rfl
  have finish : ofTokensWithin limits tokens =
      State.run limits (.operand []) tokens >>= State.close limits .sum >>= closedFormula := by
    unfold ofTokensWithin State.start
    cases hs : State.run limits (.operand []) tokens with
    | error e => rfl
    | ok s =>
      rw [hs] at hrun
      cases s with
      | complete frames e bare => rfl
      | _ => simp only [ok_bind, State.close] at hrun; cases hrun
  rw [finish]
  exact hrun.bind_ok rfl

end Expr

end CurvePlot
