import CurvePlot.Proofs.Expr.Prefixes
import Mathlib.Data.List.Induction

/-!
# Open parentheses

The reader remembers the column of every parenthesis that it is inside of, in the frames of groups
and calls. These are the parentheses that the tokens before it have left open: an opening one is
put in front of those that are already open, and a closing one takes the innermost away
(`State.openColumns_step`). So a run leaves open just what its tokens do (`State.openColumns_run`),
and every column remembered is that of an opening parenthesis (`mem_openParens`).
-/

namespace CurvePlot

namespace Expr

variable {limits : Limits}

/-! ### What tokens leave open -/

/-- Whether a token opens or closes a parenthesis. -/
def isParen : Token.Kind → Bool
  | .lparen => true
  | .rparen => true
  | _ => false

/-- The columns of the open parentheses after one more token, the innermost first. -/
def openAfter (columns : List Nat) (t : Token) : List Nat :=
  match t.kind with
  | .lparen => t.column :: columns
  | .rparen => columns.tail
  | _ => columns

/-- The columns of the parentheses that some tokens leave open, the innermost first. -/
def openParens (tokens : List Token) : List Nat :=
  tokens.foldl openAfter []

@[simp] theorem openParens_nil : openParens [] = [] := rfl

theorem openParens_append_singleton (tokens : List Token) (t : Token) :
    openParens (tokens ++ [t]) = openAfter (openParens tokens) t := by
  rw [openParens, List.foldl_append, List.foldl_cons, List.foldl_nil, openParens]

theorem openAfter_of_lparen {t : Token} (h : t.kind = .lparen) (columns : List Nat) :
    openAfter columns t = t.column :: columns := by
  rw [openAfter, h]

theorem openAfter_of_rparen {t : Token} (h : t.kind = .rparen) (columns : List Nat) :
    openAfter columns t = columns.tail := by
  rw [openAfter, h]

theorem openAfter_of_isParen {t : Token} (h : isParen t.kind = false) (columns : List Nat) :
    openAfter columns t = columns := by
  rw [openAfter]
  split
  · rename_i hkind
    rw [hkind] at h
    cases h
  · rename_i hkind
    rw [hkind] at h
    cases h
  · rfl

/-- An open parenthesis is one of the tokens. -/
theorem mem_openParens {tokens : List Token} {column : Nat} (h : column ∈ openParens tokens) :
    (⟨.lparen, column⟩ : Token) ∈ tokens := by
  induction tokens using List.reverseRecOn with
  | nil => simp at h
  | append_singleton tokens t ih =>
    rw [openParens_append_singleton, openAfter] at h
    rw [List.mem_append, List.mem_singleton]
    split at h
    · rename_i hkind
      rcases List.mem_cons.mp h with rfl | h
      · exact .inr (hkind ▸ rfl)
      · exact .inl (ih h)
    · exact .inl (ih (List.mem_of_mem_tail h))
    · exact .inl (ih h)

/-! ### What frames leave open -/

/-- The column of the parenthesis that a frame begins with, if it begins with one. -/
def Frame.column? : Frame → Option Nat
  | .group column => some column
  | .call _ column _ => some column
  | _ => none

/-- The columns of the parentheses that some frames are inside of, the innermost first. -/
def openColumns (frames : List Frame) : List Nat :=
  frames.filterMap Frame.column?

/-- The columns of the parentheses that the reader is inside of, the innermost first. -/
def State.openColumns : State → List Nat
  | .operand frames => Expr.openColumns frames
  | .callee frames _ _ => Expr.openColumns frames
  | .arguments frames _ column => column :: Expr.openColumns frames
  | .complete frames _ _ => Expr.openColumns frames

@[simp] theorem openColumns_cons_none {frame : Frame} (h : frame.column? = none)
    (frames : List Frame) : openColumns (frame :: frames) = openColumns frames :=
  List.filterMap_cons_none h

@[simp] theorem openColumns_cons_some {frame : Frame} {column : Nat}
    (h : frame.column? = some column) (frames : List Frame) :
    openColumns (frame :: frames) = column :: openColumns frames :=
  List.filterMap_cons_some h

theorem openColumns_applySigns (frames : List Frame) (e : Expr) :
    openColumns (applySigns frames e).1 = openColumns frames := by
  fun_induction applySigns frames e with
  | case1 frames e ih => rw [ih, openColumns_cons_none rfl]
  | case2 frames e ih => rw [ih, openColumns_cons_none rfl]
  | case3 => rfl

theorem openColumns_finishOperand (frames : List Frame) (e : Expr)
    (bare : Option (String × Nat)) :
    (finishOperand frames e bare).openColumns = openColumns frames :=
  openColumns_applySigns frames e

theorem openColumns_closePowers (frames : List Frame) (e : Expr) :
    openColumns (closePowers frames e).1 = openColumns frames := by
  fun_induction closePowers frames e with
  | case1 base frames e ih => rw [ih, openColumns_cons_none rfl]
  | case2 => rfl

theorem openColumns_closeProduct {frames outer : List Frame} {e joined : Expr}
    (h : closeProduct limits frames e = .ok (outer, joined)) :
    openColumns outer = openColumns frames := by
  rw [← openColumns_closePowers frames e]
  unfold closeProduct at h
  split at h
  · rename_i hclosed
    obtain ⟨_, -, h⟩ := eq_ok_of_bind h
    cases h
    rw [hclosed, openColumns_cons_none rfl]
  · rw [Except.ok.inj h]

theorem openColumns_closeSum {frames outer : List Frame} {e joined : Expr}
    (h : closeSum limits frames e = .ok (outer, joined)) :
    openColumns outer = openColumns frames := by
  unfold closeSum at h
  obtain ⟨⟨inner, right⟩, hproduct, h⟩ := eq_ok_of_bind h
  rw [← openColumns_closeProduct hproduct]
  split at h
  · rename_i hclosed
    obtain ⟨_, -, h⟩ := eq_ok_of_bind h
    cases h
    cases hclosed
    rw [openColumns_cons_none rfl]
  · cases h
    rfl

theorem openColumns_finishCall {frames : List Frame} {f : Callable} {arguments : List Expr}
    {s : State} (h : finishCall frames f arguments = .ok s) :
    s.openColumns = openColumns frames := by
  unfold finishCall at h
  split at h
  · cases h
    exact openColumns_finishOperand _ _ _
  · cases h
    exact openColumns_finishOperand _ _ _
  · cases h

/-! ### One token -/

/-- One level deeper, an operand must come. -/
theorem eq_operand_of_nest {frame : Frame} {frames : List Frame} {s : State}
    (h : State.operand <$> nest limits frame frames = .ok s) : s = .operand (frame :: frames) := by
  obtain ⟨inner, hnest, rfl⟩ := eq_ok_of_map h
  rw [eq_of_nest hnest]

theorem openColumns_readOperand {frames : List Frame} {t : Token} {s : State}
    (h : readOperand limits frames t = .ok s) :
    s.openColumns = openAfter (openColumns frames) t := by
  unfold readOperand at h
  split at h
  · rename_i hkind
    cases h
    rw [openColumns_finishOperand, openAfter_of_isParen (hkind ▸ rfl)]
  · rename_i hkind
    obtain rfl := eq_operand_of_nest h
    rw [State.openColumns, openColumns_cons_none rfl, openAfter_of_isParen (hkind ▸ rfl)]
  · rename_i hkind
    obtain rfl := eq_operand_of_nest h
    rw [State.openColumns, openColumns_cons_none rfl, openAfter_of_isParen (hkind ▸ rfl)]
  · rename_i hkind
    obtain rfl := eq_operand_of_nest h
    rw [State.openColumns, openColumns_cons_some rfl, openAfter_of_lparen hkind]
  · rename_i hkind
    rw [openAfter_of_isParen (hkind ▸ rfl)]
    split at h
    · cases h
    · cases h
      exact openColumns_finishOperand _ _ _
    · cases h
      exact openColumns_finishOperand _ _ _
    · cases h
      rfl
  · split at h <;> cases h
  · cases h

theorem openColumns_readCloser {frames : List Frame} {e : Expr} {t : Token} {s : State}
    (h : readCloser frames e t = .ok s) : s.openColumns = openAfter (openColumns frames) t := by
  unfold readCloser at h
  split at h
  · rename_i hkind
    cases h
    rw [openAfter_of_rparen hkind, openColumns_finishOperand, openColumns_cons_some rfl,
      List.tail_cons]
  · rename_i hkind
    rw [openAfter_of_rparen hkind, openColumns_finishCall h, openColumns_cons_some rfl,
      List.tail_cons]
  · rename_i hkind
    cases h
    rw [openAfter_of_isParen (hkind ▸ rfl), State.openColumns, openColumns_cons_some rfl,
      openColumns_cons_some rfl]
  all_goals cases h

theorem openColumns_readOperator {frames : List Frame} {e : Expr} {t : Token} {s : State}
    (h : readOperator limits frames e t = .ok s) :
    s.openColumns = openAfter (openColumns frames) t := by
  have product {op : BinaryOp} (h : (closeProduct limits frames e >>= fun closed =>
      .ok (State.operand (.product op closed.2 :: closed.1))) = .ok s) :
      s.openColumns = openColumns frames := by
    obtain ⟨closed, hclosed, h⟩ := eq_ok_of_bind h
    cases h
    rw [State.openColumns, openColumns_cons_none rfl, openColumns_closeProduct hclosed]
  have sum {op : BinaryOp} (h : (closeSum limits frames e >>= fun closed =>
      .ok (State.operand (.sum op closed.2 :: closed.1))) = .ok s) :
      s.openColumns = openColumns frames := by
    obtain ⟨closed, hclosed, h⟩ := eq_ok_of_bind h
    cases h
    rw [State.openColumns, openColumns_cons_none rfl, openColumns_closeSum hclosed]
  unfold readOperator at h
  split at h
  · rename_i hkind
    obtain rfl := eq_operand_of_nest h
    rw [State.openColumns, openColumns_cons_none rfl, openAfter_of_isParen (hkind ▸ rfl)]
  · rename_i hkind
    rw [openAfter_of_isParen (hkind ▸ rfl), product h]
  · rename_i hkind
    rw [openAfter_of_isParen (hkind ▸ rfl), product h]
  · rename_i hkind
    rw [openAfter_of_isParen (hkind ▸ rfl), sum h]
  · rename_i hkind
    rw [openAfter_of_isParen (hkind ▸ rfl), sum h]
  · obtain ⟨⟨outer, closed⟩, hclosed, h⟩ := eq_ok_of_bind h
    rw [openColumns_readCloser h, openColumns_closeSum hclosed]

/-- **One token** opens and closes the same parentheses for the reader as it does by itself. -/
theorem State.openColumns_step {s s' : State} {t : Token} (h : s.step limits t = .ok s') :
    s'.openColumns = openAfter s.openColumns t := by
  cases s with
  | operand frames => exact openColumns_readOperand h
  | callee frames f column =>
    simp only [State.step] at h
    split at h
    · rename_i hkind
      cases h
      rw [openAfter_of_lparen hkind, State.openColumns, State.openColumns]
    · cases h
  | arguments frames f column =>
    simp only [State.step] at h
    split at h
    · rename_i hkind
      rw [openColumns_finishCall h, openAfter_of_rparen hkind, State.openColumns, List.tail_cons]
    · obtain ⟨inner, hnest, h⟩ := eq_ok_of_bind h
      rw [openColumns_readOperand h, eq_of_nest hnest, openColumns_cons_some rfl,
        State.openColumns]
  | complete frames e bare =>
    simp only [State.step] at h
    split at h
    · cases h
    · exact openColumns_readOperator h

/-! ### All tokens -/

theorem State.openColumns_run {s s' : State} {tokens : List Token}
    (h : s.run limits tokens = .ok s') :
    s'.openColumns = tokens.foldl openAfter s.openColumns := by
  induction tokens generalizing s with
  | nil =>
    cases h
    rfl
  | cons t tokens ih =>
    obtain ⟨next, hstep, h⟩ := eq_ok_of_bind (State.run_cons s t tokens ▸ h)
    rw [ih h, State.openColumns_step hstep, List.foldl_cons]

/-- **The parentheses that the reader is inside of** are those that the tokens have left open. -/
theorem openColumns_of_run_start {s : State} {tokens : List Token}
    (h : State.start.run limits tokens = .ok s) : s.openColumns = openParens tokens :=
  State.openColumns_run h

end Expr

end CurvePlot
