import CurvePlot.Proofs.Expr.Outcome

/-!
# What the reader has read

A state of the reader stands for the tokens before it: its frames are what those tokens have
left open, and each tree in it is derived from some of them (`State.Spells`). One token keeps
this true (`State.Spells.step`), so a whole run does, and a tree that the reader ends with is
derived from all of the tokens (`derives_of_ofTokens`). The limits do not matter here.
-/

namespace CurvePlot

namespace Expr

open Token (Kind)

variable {limits : Limits}

/-! ### Steps that succeed -/

theorem eq_of_chain {op : BinaryOp} {left right joined : Expr}
    (h : chain limits op left right = .ok joined) : joined = .binary op left right := by
  unfold chain at h
  split at h
  · exact (Except.ok.inj h).symm
  · cases h

theorem eq_of_nest {frame : Frame} {frames inner : List Frame}
    (h : nest limits frame frames = .ok inner) : inner = frame :: frames := by
  unfold nest at h
  split at h
  · exact (Except.ok.inj h).symm
  · cases h

/-! ### Prefixes of formulas -/

/-- The arguments of a call that are followed by a comma, at the level `l`. -/
inductive Arguments (l : Nat) : List Kind → List Expr → Prop where
  | nil : Arguments l [] []
  | snoc {ts us : List Kind} {arguments : List Expr} {a : Expr} {ls : List Nat}
    (before : Arguments l ts arguments) (last : Derives .sum l us a ls) :
    Arguments l (ts ++ (us ++ [.comma])) (arguments ++ [a])

theorem Arguments.eq_nil {l : Nat} {ts : List Kind} (h : Arguments l ts []) : ts = [] := by
  generalize hargs : ([] : List Expr) = arguments at h
  cases h with
  | nil => rfl
  | snoc => simp at hargs

theorem Arguments.eq_snoc {l : Nat} {ts : List Kind} {arguments : List Expr} {a : Expr}
    (h : Arguments l ts (arguments ++ [a])) :
    ∃ vs us ls, ts = vs ++ (us ++ [.comma]) ∧ Arguments l vs arguments ∧
      Derives .sum l us a ls := by
  generalize hargs : arguments ++ [a] = others at h
  cases h with
  | nil => simp at hargs
  | snoc before last =>
    obtain ⟨rfl, h⟩ := List.append_inj' hargs rfl
    cases h
    exact ⟨_, _, _, rfl, before, last⟩

/-- The tokens are a **prefix** of a formula that leaves the frames open, and an operand is
to follow. -/
inductive Opens : List Frame → List Kind → Prop where
  | start : Opens [] []
  | minus {frames : List Frame} {ts : List Kind} (outer : Opens frames ts) :
    Opens (.sign true :: frames) (ts ++ [.minus])
  | plus {frames : List Frame} {ts : List Kind} (outer : Opens frames ts) :
    Opens (.sign false :: frames) (ts ++ [.plus])
  | power {frames : List Frame} {ts us : List Kind} {a : Expr} {ls : List Nat}
    (outer : Opens frames ts) (admits : Admits frames .power)
    (base : Derives .signed (level frames) us a ls) :
    Opens (.power a :: frames) (ts ++ (us ++ [.caret]))
  | product {frames : List Frame} {ts us : List Kind} {k : Kind} {op : BinaryOp} {a : Expr}
    {ls : List Nat} (outer : Opens frames ts) (admits : Admits frames .product)
    (operator : productOp? k = some op) (left : Derives .product (level frames) us a ls) :
    Opens (.product op a :: frames) (ts ++ (us ++ [k]))
  | sum {frames : List Frame} {ts us : List Kind} {k : Kind} {op : BinaryOp} {a : Expr}
    {ls : List Nat} (outer : Opens frames ts) (admits : Admits frames .sum)
    (operator : sumOp? k = some op) (left : Derives .sum (level frames) us a ls) :
    Opens (.sum op a :: frames) (ts ++ (us ++ [k]))
  | group {frames : List Frame} {ts : List Kind} (column : Nat) (outer : Opens frames ts) :
    Opens (.group column :: frames) (ts ++ [.lparen])
  | call {frames : List Frame} {ts us : List Kind} {s : String} {f : Callable}
    {arguments : List Expr} (column : Nat) (outer : Opens frames ts)
    (name : Builtin.ofName? s = some (.callable f))
    (before : Arguments (level frames + 1) us arguments) :
    Opens (.call f column arguments :: frames) (ts ++ (.name s :: .lparen :: us))

/-- The tokens are a prefix that leaves the frames open, and then a phrase of the kind `c` with
the tree `e`. -/
def Holds (c : Phrase) (frames : List Frame) (e : Expr) (ts : List Kind) : Prop :=
  ∃ before us ls, ts = before ++ us ∧ Opens frames before ∧ Derives c (level frames) us e ls

/-- What the tokens before a state are. -/
def State.Spells : State → List Kind → Prop
  | .operand frames, ts => Opens frames ts
  | .callee frames f _, ts =>
    ∃ before s, ts = before ++ [.name s] ∧ Builtin.ofName? s = some (.callable f) ∧
      Opens frames before
  | .arguments frames f _, ts =>
    ∃ before s, ts = before ++ [.name s, .lparen] ∧ Builtin.ofName? s = some (.callable f) ∧
      Opens frames before
  | .complete frames e _, ts => Holds .signed frames e ts ∧ Admits frames .power

/-! ### What frames admit -/

theorem admits_power {frames : List Frame}
    (hs : ∀ negates outer, frames ≠ .sign negates :: outer) : Admits frames .power := by
  rcases frames with _ | ⟨frame, outer⟩
  · simp [Admits, slot, Phrase.rank]
  · cases frame <;> simp_all [Admits, slot, Phrase.rank]

theorem Admits.product {frames : List Frame} (h : Admits frames .power)
    (hpower : ∀ base outer, frames ≠ .power base :: outer)
    (hproduct : ∀ op left outer, frames ≠ .product op left :: outer) :
    Admits frames .product := by
  rcases frames with _ | ⟨frame, outer⟩
  · simp [Admits, slot, Phrase.rank]
  · cases frame <;> simp_all [Admits, slot, Phrase.rank]

theorem Admits.sum {frames : List Frame} (h : Admits frames .product)
    (hsum : ∀ op left outer, frames ≠ .sum op left :: outer) : Admits frames .sum := by
  rcases frames with _ | ⟨frame, outer⟩
  · simp [Admits, slot, Phrase.rank]
  · cases frame <;> simp_all [Admits, slot, Phrase.rank]

/-! ### Closing frames -/

/-- Signs belong to the phrase that follows them. -/
theorem Holds.applySigns {frames : List Frame} {e : Expr} {ts : List Kind}
    (h : Holds .signed frames e ts) :
    Holds .signed (applySigns frames e).1 (applySigns frames e).2 ts ∧
      Admits (applySigns frames e).1 .power := by
  fun_induction Expr.applySigns frames e with
  | case1 frames e ih =>
    obtain ⟨before, us, ls, rfl, hopens, hus⟩ := h
    cases hopens with
    | @minus _ before outer =>
      rw [level_cons_of_nests rfl] at hus
      exact ih ⟨before, _, ls, List.append_cons .. |>.symm, outer, .minus hus⟩
  | case2 frames e ih =>
    obtain ⟨before, us, ls, rfl, hopens, hus⟩ := h
    cases hopens with
    | @plus _ before outer =>
      rw [level_cons_of_nests rfl] at hus
      exact ih ⟨before, _, ls, List.append_cons .. |>.symm, outer, .plus hus⟩
  | case3 frames e hminus hplus =>
    refine ⟨h, admits_power fun negates outer => ?_⟩
    cases negates
    · exact hplus outer
    · exact hminus outer

/-- A finished operand is a signed phrase, together with the signs in front of it. -/
theorem Holds.finishOperand {frames : List Frame} {e : Expr} {ts : List Kind}
    (h : Holds .operand frames e ts) (bare : Option (String × Nat)) :
    (finishOperand frames e bare).Spells ts := by
  obtain ⟨before, us, ls, rfl, hopens, hus⟩ := h
  exact Holds.applySigns ⟨before, us, ls, rfl, hopens, .signedOfOperand hus⟩

/-- Exponents belong to the bases before them. -/
theorem Holds.closePowers {frames : List Frame} {e : Expr} {ts : List Kind}
    (h : Holds .power frames e ts) (ha : Admits frames .power) :
    Holds .power (closePowers frames e).1 (closePowers frames e).2 ts ∧
      Admits (closePowers frames e).1 .power ∧
      ∀ base outer, (closePowers frames e).1 ≠ .power base :: outer := by
  fun_induction Expr.closePowers frames e with
  | case1 base frames e ih =>
    obtain ⟨before, us, ls, rfl, hopens, hus⟩ := h
    cases hopens with
    | @power _ before vs _ ms outer admits hbase =>
      rw [level_cons_of_nests rfl] at hus
      exact ih ⟨before, vs ++ .caret :: us, ms ++ ls, by simp, outer, .power hbase hus⟩ admits
  | case2 frames e hne => exact ⟨h, ha, hne⟩

/-- The end of a product closes it. -/
theorem Holds.closeProduct {frames outer : List Frame} {e joined : Expr} {ts : List Kind}
    (h : Holds .signed frames e ts) (ha : Admits frames .power)
    (hc : closeProduct limits frames e = .ok (outer, joined)) :
    Holds .product outer joined ts ∧ Admits outer .product := by
  obtain ⟨before, us, ls, rfl, hopens, hus⟩ := h
  obtain ⟨hpower, ha', hne⟩ :=
    Holds.closePowers ⟨before, us, ls, rfl, hopens, .powerOfSigned hus⟩ ha
  unfold Expr.closeProduct at hc
  generalize Expr.closePowers frames e = closed at hc hpower ha' hne
  obtain ⟨inner, right⟩ := closed
  obtain ⟨before, us, ls, hts, hopens, hus⟩ := hpower
  rw [hts]
  -- the power is the right operand of a product, or the product is the power alone
  split at hc
  · rename_i op left outer' right heq
    cases heq
    obtain ⟨_, hchain, hc⟩ := eq_ok_of_bind hc
    cases eq_of_chain hchain
    cases hc
    cases hopens with
    | @product _ before vs k _ _ ms hopens admits operator hleft =>
      rw [level_product] at hus
      exact ⟨⟨before, vs ++ k :: us, ms ++ ls, by simp, hopens, .product operator hleft hus⟩,
        admits⟩
  · rename_i hnp
    cases hc
    refine ⟨⟨before, us, ls, rfl, hopens, .productOfPower hus⟩, ha'.product hne ?_⟩
    exact fun op left outer' heq => hnp op left outer' joined (congrArg (·, joined) heq)

/-- The end of a sum closes it. -/
theorem Holds.closeSum {frames outer : List Frame} {e joined : Expr} {ts : List Kind}
    (h : Holds .signed frames e ts) (ha : Admits frames .power)
    (hc : closeSum limits frames e = .ok (outer, joined)) :
    Holds .sum outer joined ts ∧ Admits outer .sum := by
  unfold Expr.closeSum at hc
  obtain ⟨⟨inner, right⟩, hp, hc⟩ := eq_ok_of_bind hc
  obtain ⟨⟨before, us, ls, rfl, hopens, hus⟩, ha'⟩ := h.closeProduct ha hp
  split at hc
  · rename_i op left outer' right heq
    cases heq
    obtain ⟨_, hchain, hc⟩ := eq_ok_of_bind hc
    cases eq_of_chain hchain
    cases hc
    cases hopens with
    | @sum _ before vs k _ _ ms hopens admits operator hleft =>
      rw [level_sum] at hus
      exact ⟨⟨before, vs ++ k :: us, ms ++ ls, by simp, hopens, .sum operator hleft hus⟩,
        admits⟩
  · rename_i hns
    cases hc
    refine ⟨⟨before, us, ls, rfl, hopens, .sumOfProduct hus⟩, ha'.sum ?_⟩
    exact fun op left outer' heq => hns op left outer' joined (congrArg (·, joined) heq)

/-! ### One token -/

theorem Opens.nest {frame : Frame} {frames : List Frame} {s : State} {ts : List Kind}
    (h : Opens (frame :: frames) ts) (hs : State.operand <$> nest limits frame frames = .ok s) :
    s.Spells ts := by
  cases hn : Expr.nest limits frame frames with
  | error e => rw [hn] at hs; cases hs
  | ok inner =>
    rw [hn] at hs
    cases hs
    exact eq_of_nest hn ▸ h

/-- A token where an operand must come. -/
theorem Opens.readOperand {frames : List Frame} {ts : List Kind} {token : Token} {s : State}
    (h : Opens frames ts) (hs : readOperand limits frames token = .ok s) :
    s.Spells (ts ++ [token.kind]) := by
  unfold Expr.readOperand at hs
  -- a number, a sign, a parenthesis or a name; all other tokens are errors
  split at hs <;> rename_i hkind <;> try rw [hkind]
  · cases hs
    exact Holds.finishOperand ⟨ts, _, _, rfl, h, .number _ _⟩ _
  · exact Opens.minus h |>.nest hs
  · exact Opens.plus h |>.nest hs
  · exact Opens.group _ h |>.nest hs
  · rename_i letters
    split at hs
    · cases hs
    · cases hs
      exact Holds.finishOperand ⟨ts, _, _, rfl, h, .var _ ‹_›⟩ _
    · cases hs
      exact Holds.finishOperand ⟨ts, _, _, rfl, h, .named _ ‹_›⟩ _
    · cases hs
      exact ⟨ts, letters, rfl, ‹_›, h⟩
  · split at hs <;> cases hs
  · cases hs

/-- The end of a call. -/
theorem spells_of_finishCall {frames : List Frame} {before ts us : List Kind} {s : String}
    {f : Callable} {arguments : List Expr} {a : Expr} {ls : List Nat} {next : State}
    (h : Opens frames before) (name : Builtin.ofName? s = some (.callable f))
    (others : Arguments (level frames + 1) ts arguments)
    (last : Derives .sum (level frames + 1) us a ls)
    (hs : finishCall frames f (arguments ++ [a]) = .ok next) :
    next.Spells (before ++ (.name s :: .lparen :: (ts ++ (us ++ [.rparen])))) := by
  unfold finishCall at hs
  split at hs
  · rename_i g b hb
    cases hs
    obtain ⟨rfl, hb⟩ := List.append_inj' (hb.trans (List.nil_append [b]).symm) rfl
    cases hb
    cases others.eq_nil
    exact Holds.finishOperand ⟨before, _, _, rfl, h, .callUnary name last⟩ _
  · -- of the two arguments, one was followed by a comma before
    rename_i g b c hbc
    cases hs
    obtain ⟨rfl, hc⟩ := List.append_inj' (hbc.trans List.singleton_append.symm) rfl
    cases hc
    rw [← List.nil_append [b]] at others
    obtain ⟨vs, us', ls', rfl, hvs, hfirst⟩ := others.eq_snoc
    cases hvs.eq_nil
    refine Holds.finishOperand ⟨before, _, _, ?_, h, .callBinary name hfirst last⟩ _
    simp
  · cases hs

/-- A token that ends a phrase. -/
theorem Holds.readCloser {frames : List Frame} {e : Expr} {ts : List Kind} {token : Token}
    {s : State} (h : Holds .sum frames e ts) (hs : readCloser frames e token = .ok s) :
    s.Spells (ts ++ [token.kind]) := by
  obtain ⟨before, us, ls, rfl, hopens, hus⟩ := h
  unfold Expr.readCloser at hs
  -- the end of a group, of a call or of an argument
  split at hs
  · rename_i column outer hkind
    cases hs
    rw [hkind]
    cases hopens with
    | @group _ before _ hopens =>
      rw [level_cons_of_nests rfl] at hus
      exact Holds.finishOperand ⟨before, _, _, by simp, hopens, .group hus⟩ _
  · rename_i f column arguments outer hkind
    rw [hkind]
    cases hopens with
    | @call _ before vs s _ _ _ hopens name hvs =>
      rw [level_cons_of_nests rfl] at hus
      simpa using spells_of_finishCall hopens name hvs hus hs
  · rename_i f column arguments outer hkind
    cases hs
    rw [hkind]
    cases hopens with
    | @call _ before vs s _ _ _ hopens name hvs =>
      rw [level_cons_of_nests rfl] at hus
      have := Opens.call column hopens name (hvs.snoc hus)
      simpa [State.Spells] using this
  all_goals cases hs

theorem Holds.productOp {frames : List Frame} {e : Expr} {ts : List Kind} {k : Kind}
    {op : BinaryOp} {s : State} (h : Holds .signed frames e ts) (ha : Admits frames .power)
    (operator : productOp? k = some op)
    (hs : (Expr.closeProduct limits frames e >>= fun p => .ok (.operand (.product op p.2 :: p.1))) =
      .ok s) : s.Spells (ts ++ [k]) := by
  obtain ⟨⟨outer, left⟩, hc, hs⟩ := eq_ok_of_bind hs
  cases hs
  obtain ⟨⟨before, us, ls, rfl, hopens, hus⟩, ha'⟩ := h.closeProduct ha hc
  rw [List.append_assoc]
  exact .product hopens ha' operator hus

theorem Holds.sumOp {frames : List Frame} {e : Expr} {ts : List Kind} {k : Kind}
    {op : BinaryOp} {s : State} (h : Holds .signed frames e ts) (ha : Admits frames .power)
    (operator : sumOp? k = some op)
    (hs : (Expr.closeSum limits frames e >>= fun p => .ok (.operand (.sum op p.2 :: p.1))) =
      .ok s) : s.Spells (ts ++ [k]) := by
  obtain ⟨⟨outer, left⟩, hc, hs⟩ := eq_ok_of_bind hs
  cases hs
  obtain ⟨⟨before, us, ls, rfl, hopens, hus⟩, ha'⟩ := h.closeSum ha hc
  rw [List.append_assoc]
  exact .sum hopens ha' operator hus

/-- A token after an operand. -/
theorem Holds.readOperator {frames : List Frame} {e : Expr} {ts : List Kind} {token : Token}
    {s : State} (h : Holds .signed frames e ts) (ha : Admits frames .power)
    (hs : readOperator limits frames e token = .ok s) : s.Spells (ts ++ [token.kind]) := by
  unfold Expr.readOperator at hs
  split at hs <;> rename_i hkind <;> try rw [hkind]
  · obtain ⟨before, us, ls, rfl, hopens, hus⟩ := h
    have := Opens.power hopens ha hus
    rw [← List.append_assoc] at this
    exact this.nest hs
  · exact h.productOp ha (k := .star) rfl hs
  · exact h.productOp ha (k := .slash) rfl hs
  · exact h.sumOp ha (k := .plus) rfl hs
  · exact h.sumOp ha (k := .minus) rfl hs
  · obtain ⟨⟨outer, closed⟩, hc, hs⟩ := eq_ok_of_bind hs
    exact (h.closeSum ha hc).1.readCloser hs

/-- **One token**: a state that spells the tokens before it goes to one that spells them and the
next one. -/
theorem State.Spells.step {s s' : State} {ts : List Kind} {token : Token} (h : s.Spells ts)
    (hs : s.step limits token = .ok s') : s'.Spells (ts ++ [token.kind]) := by
  cases s with
  | operand frames => exact Opens.readOperand h hs
  | callee frames f column =>
    obtain ⟨before, s, rfl, name, hopens⟩ := h
    simp only [State.step] at hs
    split at hs
    · cases hs
      exact ⟨before, s, by simp [*], name, hopens⟩
    · cases hs
  | arguments frames f column =>
    obtain ⟨before, s, rfl, name, hopens⟩ := h
    simp only [State.step] at hs
    split at hs
    · -- every function has an argument
      cases f <;> cases hs
    · obtain ⟨inner, hn, hs⟩ := eq_ok_of_bind hs
      cases eq_of_nest hn
      exact Opens.readOperand (Opens.call column hopens name .nil) hs
  | complete frames e bare =>
    obtain ⟨hus, ha⟩ := h
    simp only [State.step] at hs
    split at hs
    · cases hs
    · exact hus.readOperator ha hs

/-! ### All tokens -/

theorem State.Spells.run {s s' : State} {ts : List Kind} {tokens : List Token} (h : s.Spells ts)
    (hs : s.run limits tokens = .ok s') : s'.Spells (ts ++ tokens.map Token.kind) := by
  induction tokens generalizing s ts with
  | nil =>
    cases hs
    simpa using h
  | cons token tokens ih =>
    obtain ⟨next, hstep, hs⟩ := eq_ok_of_bind (State.run_cons s token tokens ▸ hs)
    simpa using ih (h.step hstep) hs

theorem State.Spells.finish {s : State} {ts : List Kind} {t : Expr} (h : s.Spells ts)
    (hs : s.finish limits = .ok t) : ∃ ls, Derives .sum 1 ts t ls := by
  cases s with
  | operand frames => cases hs
  | callee frames f column => cases hs
  | arguments frames f column =>
    obtain ⟨_, _, hs⟩ := eq_ok_of_bind hs
    cases hs
  | complete frames e bare =>
    obtain ⟨hus, ha⟩ := h
    obtain ⟨⟨outer, whole⟩, hc, hs⟩ := eq_ok_of_bind hs
    obtain ⟨⟨before, us, ls, rfl, hopens, hwhole⟩, -⟩ := hus.closeSum ha hc
    split at hs
    · rename_i heq
      cases heq
      cases hs
      cases hopens
      exact ⟨ls, hwhole⟩
    all_goals cases hs

/-- **What the reader accepts is derived** by the grammar, with the tree that the reader gives. -/
theorem derives_of_ofTokens {tokens : List Token} {t : Expr}
    (h : ofTokensWithin limits tokens = .ok t) :
    ∃ ls, Derives .sum 1 (tokens.map Token.kind) t ls := by
  obtain ⟨last, hrun, hfinish⟩ := eq_ok_of_bind h
  have spells : State.start.Spells [] := Opens.start
  exact (spells.run hrun).finish hfinish

end Expr

end CurvePlot
