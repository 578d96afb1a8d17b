import CurvePlot.Proofs.Expr.Parentheses
import Mathlib.Data.List.Basic

/-!
# Why formulas are refused

Every cause that the reader gives says something of the tokens, and it is true of them
(`explains_of_ofTokens`): a token that is named is there, a name without a meaning has none, a call
that is said to have too few or too many arguments has that many, and so on. What a step may say of
tokens before the one it reads is what its state still knows of them (`State.Follows`).

No cause says that there is no token, so a formula is refused as empty just if it has no token at
all, which means that there is nothing but separators in it (`Expr.parse_eq_error_empty_iff`).
-/

namespace CurvePlot

namespace Expr

open Token (Kind)

variable {limits : Limits}

/-! ### What causes say of tokens -/

/-- The tokens are a list of arguments, of a given length, with commas between them. -/
inductive IsArgumentList : Nat → List Kind → Prop
  | none : IsArgumentList 0 []
  | one {l : Nat} {ts : List Kind} {a : Expr} {ls : List Nat} (h : Derives .sum l ts a ls) :
    IsArgumentList 1 ts
  | more {n l : Nat} {ts us : List Kind} {a : Expr} {ls : List Nat}
    (before : IsArgumentList (n + 1) ts) (last : Derives .sum l us a ls) :
    IsArgumentList (n + 2) (ts ++ .comma :: us)

/-- Somewhere among the tokens is a **call** of a name with a given number of arguments. -/
def HasCall (tokens : List Kind) (name : String) (count : Nat) : Prop :=
  ∃ before inside after, IsArgumentList count inside ∧
    tokens = before ++ .name name :: .lparen :: (inside ++ .rparen :: after)

/-- A name is a token at a column, and no opening parenthesis is the next token. -/
def NotCalledAt (tokens : List Token) (name : String) (column : Nat) : Prop :=
  ∃ before after, tokens = before ++ ⟨.name name, column⟩ :: after ∧
    ∀ t ∈ after.head?, t.kind ≠ .lparen

/-- A name is a token at a column, and an opening parenthesis is the next token. -/
def CalledAt (tokens : List Token) (name : String) (column : Nat) : Prop :=
  ∃ before opening after,
    tokens = before ++ ⟨.name name, column⟩ :: ⟨.lparen, opening⟩ :: after

/-- A name stands for something that is not called: the variable or a constant. -/
def IsValueName (name : String) : Prop :=
  Builtin.ofName? name = some .x ∨ ∃ c, Builtin.ofName? name = some (.constant c)

/-- What a cause says is **true of the tokens**. Causes that only characters have, and the cause
that there is no token, are not true of any tokens. -/
def Explains (limits : Limits) (tokens : List Token) : ParseError → Prop
  | .empty => False
  | .unexpectedCharacter _ _ => False
  | .invalidNumber _ _ => False
  | .unknownName name column => ⟨.name name, column⟩ ∈ tokens ∧ Builtin.ofName? name = none
  | .unexpectedToken found column _ => ⟨found, column⟩ ∈ tokens
  | .unexpectedEnd => True
  | .unclosedParen column => ⟨.lparen, column⟩ ∈ tokens
  | .unmatchedParen column => ⟨.rparen, column⟩ ∈ tokens
  | .argumentCount name expected got =>
    (∃ f : Callable, Builtin.ofName? name = some (.callable f) ∧ f.arity = expected) ∧
      got ≠ expected ∧ HasCall (tokens.map Token.kind) name got
  | .missingCall name column =>
    (∃ f, Builtin.ofName? name = some (.callable f)) ∧ NotCalledAt tokens name column
  | .notCallable name column => IsValueName name ∧ CalledAt tokens name column
  | .tooDeep limit => limit = limits.nesting ∨ limit = limits.depth

theorem Arguments.isArgumentList {l : Nat} {ts us : List Kind} {arguments : List Expr} {a : Expr}
    {ls : List Nat} (h : Arguments l ts arguments) (last : Derives .sum l us a ls) :
    IsArgumentList (arguments.length + 1) (ts ++ us) := by
  induction h generalizing us a ls with
  | nil => exact .one last
  | @snoc ts vs arguments b ms before next ih =>
    rw [List.length_append, List.length_singleton]
    have whole : ts ++ (vs ++ [.comma]) ++ us = ts ++ vs ++ .comma :: us := by simp
    rw [whole]
    exact .more (ih next) last

/-! ### Closing frames -/

theorem failsOnly_nest (frame : Frame) (frames : List Frame) :
    FailsOnly (· = .tooDeep limits.nesting) (nest limits frame frames) := by
  rw [nest]
  split
  · exact .ok _
  · exact .error rfl

theorem failsOnly_chain (op : BinaryOp) (left right : Expr) :
    FailsOnly (· = .tooDeep limits.depth) (chain limits op left right) := by
  rw [chain]
  split
  · exact .ok _
  · exact .error rfl

theorem failsOnly_closeProduct (frames : List Frame) (e : Expr) :
    FailsOnly (· = .tooDeep limits.depth) (closeProduct limits frames e) := by
  rw [closeProduct]
  split
  · exact (failsOnly_chain _ _ _).bind fun _ => .ok _
  · exact .ok _

theorem failsOnly_closeSum (frames : List Frame) (e : Expr) :
    FailsOnly (· = .tooDeep limits.depth) (closeSum limits frames e) := by
  refine (failsOnly_closeProduct frames e).bind fun closed => ?_
  split
  · exact (failsOnly_chain _ _ _).bind fun _ => .ok _
  · exact .ok _

/-- The end of a call is refused just for the number of its arguments. -/
theorem failsOnly_finishCall (frames : List Frame) (f : Callable) (arguments : List Expr) :
    FailsOnly (fun cause => cause = .argumentCount f.name f.arity arguments.length ∧
      arguments.length ≠ f.arity) (finishCall frames f arguments) := by
  rw [finishCall.eq_def]
  split
  · exact .ok _
  · exact .ok _
  · rename_i hunary hbinary
    refine .error ⟨rfl, fun count => ?_⟩
    rcases f with g | g
    · obtain ⟨a, rfl⟩ := List.length_eq_one_iff.mp count
      exact hunary g a rfl rfl
    · obtain ⟨a, b, rfl⟩ := List.length_eq_two.mp count
      exact hbinary g a b rfl rfl

/-! ### One token -/

section

variable {P : ParseError → Prop} {frames : List Frame} {t : Token}

/-- **What an operand is refused for**: one level too many, a name without a meaning, or a token that
no operand begins with. -/
theorem failsOnly_readOperand (nested : P (.tooDeep limits.nesting))
    (unknown : ∀ name, t.kind = .name name → Builtin.ofName? name = none →
      P (.unknownName name t.column))
    (unmatched : t.kind = .rparen → frames.any Frame.isOpen = false → P (.unmatchedParen t.column))
    (other : (t.kind = .rparen → frames.any Frame.isOpen = true) → P (unexpected t .operand)) :
    FailsOnly P (readOperand limits frames t) := by
  have opened (frame : Frame) : FailsOnly P (State.operand <$> nest limits frame frames) :=
    ((failsOnly_nest frame frames).of_eq nested).map
  rw [readOperand.eq_def]
  split
  · exact .ok _
  · exact opened _
  · exact opened _
  · exact opened _
  · rename_i name hkind
    split
    · rename_i meaningless
      exact .error (unknown name hkind meaningless)
    · exact .ok _
    · exact .ok _
    · exact .ok _
  · rename_i hkind
    split
    · rename_i hopen
      exact .error (other fun _ => hopen)
    · rename_i hopen
      exact .error (unmatched hkind (Bool.eq_false_iff.mpr hopen))
  · rename_i hkind
    exact .error (other fun h => absurd h hkind)

/-- **What an operator is refused for**: a limit, if it is not the end of what the formula before it
stands in. -/
theorem failsOnly_readOperator {e : Expr} (nested : P (.tooDeep limits.nesting))
    (deep : P (.tooDeep limits.depth))
    (closer : ∀ closed, closeSum limits frames e = .ok closed →
      FailsOnly P (readCloser closed.1 closed.2 t)) :
    FailsOnly P (readOperator limits frames e t) := by
  have product := (failsOnly_closeProduct frames e).of_eq deep
  have sum := (failsOnly_closeSum frames e).of_eq deep
  rw [readOperator]
  split
  · exact ((failsOnly_nest _ _).of_eq nested).map
  · exact product.bind fun _ => .ok _
  · exact product.bind fun _ => .ok _
  · exact sum.bind fun _ => .ok _
  · exact sum.bind fun _ => .ok _
  · exact sum.bind_of_ok closer

end

theorem explains_readOperand {tokens : List Token} {t : Token} (ht : t ∈ tokens)
    (frames : List Frame) : FailsOnly (Explains limits tokens) (readOperand limits frames t) := by
  refine failsOnly_readOperand (.inl rfl) ?_ ?_ fun _ => ht
  · intro name hkind unknown
    exact ⟨hkind ▸ ht, unknown⟩
  · intro hkind _
    exact show Token.mk .rparen t.column ∈ tokens from hkind ▸ ht

/-- What is said of the arguments of a call is true if the call is there. -/
theorem explains_finishCall {tokens : List Token} {frames : List Frame} {f : Callable}
    {arguments : List Expr}
    (call : HasCall (tokens.map Token.kind) f.name arguments.length) :
    FailsOnly (Explains limits tokens) (finishCall frames f arguments) := by
  refine (failsOnly_finishCall frames f arguments).mono ?_
  rintro _ ⟨rfl, count⟩
  exact ⟨⟨f, Builtin.ofName?_name (.callable f), rfl⟩, count, call⟩

theorem explains_readCloser {done after : List Token} {t : Token} {frames : List Frame} {e : Expr}
    (h : Holds .sum frames e (done.map Token.kind)) :
    FailsOnly (Explains limits (done ++ t :: after)) (readCloser frames e t) := by
  have ht : t ∈ done ++ t :: after := List.mem_append_right _ List.mem_cons_self
  rw [readCloser.eq_def]
  split
  · exact .ok _
  · rename_i f column arguments outer hkind
    obtain ⟨before, us, ls, hdone, hopens, last⟩ := h
    cases hopens with
    | @call _ before vs s _ _ _ outer name others =>
      have hname : f.name = s := Builtin.name_of_ofName? name
      rw [level_cons_of_nests rfl] at last
      refine explains_finishCall ⟨before, vs ++ us, after.map Token.kind, ?_, ?_⟩
      · simpa using others.isArgumentList last
      · simp [hdone, hname, hkind]
  · exact .ok _
  · rename_i hkind
    exact .error (show Token.mk .rparen t.column ∈ _ from hkind ▸ ht)
  · exact .error ht
  · exact .error ht

theorem explains_readOperator {done after : List Token} {t : Token} {frames : List Frame}
    {e : Expr} (h : Holds .signed frames e (done.map Token.kind)) (ha : Admits frames .power) :
    FailsOnly (Explains limits (done ++ t :: after)) (readOperator limits frames e t) := by
  refine failsOnly_readOperator (.inl rfl) (.inr rfl) fun closed hclosed => ?_
  exact explains_readCloser (h.closeSum ha hclosed).1

/-! ### What a state knows of the tokens before it -/

/-- The last token is the name that a state speaks of. -/
def State.Remembers : State → List Token → Prop
  | .callee _ f column, tokens => ∃ before, tokens = before ++ [⟨.name f.name, column⟩]
  | .complete _ _ (some (name, column)), tokens =>
    IsValueName name ∧ ∃ before, tokens = before ++ [⟨.name name, column⟩]
  | _, _ => True

theorem remembers_readOperand {frames : List Frame} {t : Token} {s : State}
    (h : readOperand limits frames t = .ok s) (done : List Token) : s.Remembers (done ++ [t]) := by
  unfold readOperand at h
  split at h
  · cases h
    trivial
  · obtain rfl := eq_operand_of_nest h
    trivial
  · obtain rfl := eq_operand_of_nest h
    trivial
  · obtain rfl := eq_operand_of_nest h
    trivial
  · rename_i letters hkind
    have last : t = ⟨.name letters, t.column⟩ := hkind ▸ rfl
    split at h
    · cases h
    · rename_i hname
      cases h
      exact ⟨.inl hname, done, congrArg (fun t => done ++ [t]) last⟩
    · rename_i c hname
      cases h
      exact ⟨.inr ⟨c, hname⟩, done, congrArg (fun t => done ++ [t]) last⟩
    · rename_i f hname
      cases h
      obtain rfl : f.name = letters := Builtin.name_of_ofName? hname
      exact ⟨done, congrArg (fun t => done ++ [t]) last⟩
  · split at h <;> cases h
  · cases h

theorem remembers_finishCall {frames : List Frame} {f : Callable} {arguments : List Expr}
    {s : State} (h : finishCall frames f arguments = .ok s) (tokens : List Token) :
    s.Remembers tokens := by
  unfold finishCall at h
  split at h <;> cases h <;> trivial

theorem remembers_readOperator {frames : List Frame} {e : Expr} {t : Token} {s : State}
    (h : readOperator limits frames e t = .ok s) (tokens : List Token) : s.Remembers tokens := by
  unfold readOperator at h
  split at h
  · obtain rfl := eq_operand_of_nest h
    trivial
  all_goals obtain ⟨closed, -, h⟩ := eq_ok_of_bind h
  · cases h
    trivial
  · cases h
    trivial
  · cases h
    trivial
  · cases h
    trivial
  · dsimp only at h
    unfold readCloser at h
    split at h
    · cases h
      trivial
    · exact remembers_finishCall h tokens
    · cases h
      trivial
    all_goals cases h

/-- One token is remembered, whatever the state before it was. -/
theorem State.remembers_step {s s' : State} {t : Token} (h : s.step limits t = .ok s')
    (done : List Token) : s'.Remembers (done ++ [t]) := by
  cases s with
  | operand frames => exact remembers_readOperand h done
  | callee frames f column =>
    simp only [State.step] at h
    split at h <;> cases h
    trivial
  | arguments frames f column =>
    simp only [State.step] at h
    split at h
    · exact remembers_finishCall h _
    · obtain ⟨inner, -, h⟩ := eq_ok_of_bind h
      exact remembers_readOperand h done
  | complete frames e bare =>
    simp only [State.step] at h
    split at h
    · cases h
    · exact remembers_readOperator h _

/-- A state **follows** some tokens: they are what it stands for, the last of them is what it
remembers, and the parentheses that it is inside of are those that they leave open. -/
structure State.Follows (s : State) (tokens : List Token) : Prop where
  spells : s.Spells (tokens.map Token.kind)
  remembers : s.Remembers tokens
  openColumns_eq : s.openColumns = openParens tokens

theorem State.Follows.step {s s' : State} {done : List Token} {t : Token} (h : s.Follows done)
    (hs : s.step limits t = .ok s') : s'.Follows (done ++ [t]) where
  spells := by simpa using h.spells.step hs
  remembers := State.remembers_step hs done
  openColumns_eq := by
    rw [State.openColumns_step hs, h.openColumns_eq, openParens_append_singleton]

theorem follows_start : State.start.Follows [] where
  spells := Opens.start
  remembers := trivial
  openColumns_eq := rfl

/-- **One token** is refused only for a cause that is true of the tokens, whatever comes after
it. -/
theorem State.Follows.explains_step {s : State} {done : List Token} (h : s.Follows done)
    (t : Token) (after : List Token) :
    FailsOnly (Explains limits (done ++ t :: after)) (s.step limits t) := by
  have ht : t ∈ done ++ t :: after := List.mem_append_right _ List.mem_cons_self
  cases s with
  | operand frames => exact explains_readOperand ht frames
  | callee frames f column =>
    obtain ⟨before, hdone⟩ := h.remembers
    rw [State.step]
    split
    · exact .ok _
    · rename_i hkind
      refine .error ⟨⟨f, Builtin.ofName?_name (.callable f)⟩, before, t :: after, ?_, ?_⟩
      · rw [hdone, List.append_assoc, List.singleton_append]
      · rintro _ ⟨⟩
        exact hkind
  | arguments frames f column =>
    obtain ⟨before, s, hdone, name, -⟩ := h.spells
    have hname : f.name = s := Builtin.name_of_ofName? name
    rw [State.step]
    split
    · rename_i hkind
      refine explains_finishCall ⟨before, [], after.map Token.kind, .none, ?_⟩
      simp [hdone, hname, hkind]
    · exact ((failsOnly_nest _ _).of_eq (.inl rfl)).bind fun inner =>
        explains_readOperand ht inner
  | complete frames e bare =>
    simp only [State.step]
    split
    · rename_i name column hkind
      obtain ⟨value, before, hdone⟩ := h.remembers
      refine .error ⟨value, before, t.column, after, ?_⟩
      rw [hdone, List.append_assoc, List.singleton_append, ← hkind]
    · exact explains_readOperator h.spells.1 h.spells.2

/-! ### All tokens -/

/-- What follows the tokens before follows all tokens, after a run that succeeds; a run that fails
does so for a cause that is true of all tokens, whatever comes after them. -/
theorem State.Follows.run {s : State} {done : List Token} (h : s.Follows done)
    (tokens after : List Token) :
    FailsOnly (Explains limits (done ++ (tokens ++ after))) (s.run limits tokens) ∧
      ∀ s', s.run limits tokens = .ok s' → s'.Follows (done ++ tokens) := by
  induction tokens generalizing s done with
  | nil =>
    refine ⟨.ok s, fun s' hrun => ?_⟩
    cases hrun
    rwa [List.append_nil]
  | cons t tokens ih =>
    rw [State.run_cons, List.cons_append]
    refine ⟨(h.explains_step t (tokens ++ after)).bind_of_ok fun next hstep => ?_,
      fun s' hrun => ?_⟩
    · simpa using (ih (h.step hstep)).1
    · obtain ⟨next, hstep, hrun⟩ := eq_ok_of_bind hrun
      simpa using (ih (h.step hstep)).2 s' hrun

/-- Every state that the reader comes to follows the tokens that it has read. -/
theorem follows_of_run_start {s : State} {tokens : List Token}
    (h : State.start.run limits tokens = .ok s) : s.Follows tokens :=
  (follows_start.run tokens []).2 s h

/-- **The end of the tokens** is refused only for a cause that is true of them. -/
theorem State.Follows.explains_finish {s : State} {tokens : List Token} (h : s.Follows tokens) :
    FailsOnly (Explains limits tokens) (s.finish limits) := by
  cases s with
  | operand frames => exact .error trivial
  | callee frames f column =>
    obtain ⟨before, hdone⟩ := h.remembers
    refine .error ⟨⟨f, Builtin.ofName?_name (.callable f)⟩, before, [], hdone, ?_⟩
    rintro _ ⟨⟩
  | arguments frames f column =>
    exact ((failsOnly_nest _ _).of_eq (.inl rfl)).bind fun _ => .error trivial
  | complete frames e bare =>
    refine ((failsOnly_closeSum frames e).of_eq (.inr rfl)).bind_of_ok fun closed hclosed => ?_
    have columns : Expr.openColumns closed.1 = openParens tokens :=
      (openColumns_closeSum hclosed).trans h.openColumns_eq
    -- a parenthesis that is said to be unclosed is the innermost of those that are open
    split
    · exact .ok _
    · rw [openColumns_cons_some rfl] at columns
      exact .error (mem_openParens (columns ▸ List.mem_cons_self))
    · rw [openColumns_cons_some rfl] at columns
      exact .error (mem_openParens (columns ▸ List.mem_cons_self))
    · exact .error trivial

/-- **Tokens are refused** only for causes that are true of them. -/
theorem explains_ofTokensWithin (tokens : List Token) :
    FailsOnly (Explains limits tokens) (ofTokensWithin limits tokens) := by
  have run : FailsOnly (Explains limits ([] ++ (tokens ++ []))) (State.start.run limits tokens) :=
    (follows_start.run tokens []).1
  rw [List.nil_append, List.append_nil] at run
  exact run.bind_of_ok fun s hrun => (follows_of_run_start hrun).explains_finish

end Expr

/-! ### Formulas without tokens -/

namespace Token

/-- The scanner fails only for causes that characters have. -/
theorem failsOnly_scan_ne_empty (column : Nat) (found : List Token) (cs : List Char) :
    FailsOnly (· ≠ ParseError.empty) (scanFrom column found cs) := by
  fun_induction scanFrom column found cs with
  | case1 => exact .ok _
  | case2 _ _ _ _ _ ih => exact ih
  | case3 column found c rest _ cause h =>
    rintro _ ⟨⟩ rfl
    rw [lexeme] at h
    split at h
    · cases h
    · split_ifs at h
      · dsimp only at h
        split at h <;> cases h
      · cases h
  | case4 _ _ _ _ _ _ _ _ ih => exact ih

/-- Only separators give no token. -/
theorem scanFrom_eq_ok_nil_iff {column : Nat} {found : List Token} {cs : List Char} :
    scanFrom column found cs = .ok [] ↔
      found = [] ∧ ∀ c ∈ cs, Text.isSeparator c = true := by
  fun_induction scanFrom column found cs with
  | case1 => simp
  | case2 column found c rest hc ih => simp [ih, hc]
  | case3 column found c rest hc => simp [hc]
  | case4 column found c rest hc kind more _ ih =>
    rw [ih]
    exact iff_of_false (by simp) fun h => hc (h.2 c List.mem_cons_self)

end Token

namespace Expr

/-- **A formula is refused as empty** exactly if there is nothing but separators in it. -/
theorem parse_eq_error_empty_iff {source : String} :
    parse source = .error .empty ↔ ∀ c ∈ source.toList, Text.isSeparator c = true := by
  have scanned : Token.scan source = .ok [] ↔ ∀ c ∈ source.toList, Text.isSeparator c = true := by
    rw [Token.scan, Token.scanFrom_eq_ok_nil_iff]
    simp
  rw [← scanned]
  constructor
  · intro h
    rcases hscan : Token.scan source with cause | tokens
    · rw [parse, hscan] at h
      exact absurd (Except.error.inj h) (Token.failsOnly_scan_ne_empty 1 [] _ cause hscan)
    · rcases tokens with _ | ⟨t, tokens⟩
      · rfl
      · rw [parse, hscan] at h
        exact (explains_ofTokensWithin (t :: tokens) .empty h).elim
  · intro h
    rw [parse, h]
    rfl

end Expr

end CurvePlot
