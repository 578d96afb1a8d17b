import CurvePlot.Proofs.Program.StackHeight
import Mathlib.Data.List.Forall2

/-!
# The operator `^` and calls of `pow`

A power can be written in two ways, and each keeps its own node in the tree and its own instruction in
the program. A formula is **respelled** if any of its powers are written the other way
(`Expr.Respelled`). Respelling a formula respells its program, instruction by instruction. Respelled
instructions do the same to a stack of numbers (`Instr.Respelled.exec_eq`), and the folder keeps its
shadow stack the same and respells what it emits (`Folding.Respelled.step`), whatever the instructions
are. So the values stay the same bit for bit, and the same parts of the formula are folded to the same
numbers.
-/

namespace CurvePlot

/-! ### Operations and instructions -/

/-- An operation is **respelled** if it is a power that is written the other way; any operation may
stay as it is. -/
inductive BinaryOp.Respelled : BinaryOp → BinaryOp → Prop
  | same (op : BinaryOp) : Respelled op op
  | asCall : Respelled .pow (.call .pow)
  | asOperator : Respelled (.call .pow) .pow

theorem BinaryOp.Respelled.apply_eq {op op' : BinaryOp} (h : op.Respelled op') :
    op.apply = op'.apply := by
  cases h <;> rfl

/-- An instruction is respelled if its operation is. -/
inductive Instr.Respelled : Instr → Instr → Prop
  | same (i : Instr) : Respelled i i
  | binary {op op' : BinaryOp} (h : op.Respelled op') : Respelled (.binary op) (.binary op')

namespace Instr.Respelled

variable {i j : Instr}

theorem exec_eq (h : i.Respelled j) (x : Float) (stack : List Float) :
    i.exec x stack = j.exec x stack := by
  cases h with
  | same => rfl
  | binary hop => rcases stack with _ | ⟨b, _ | ⟨a, stack⟩⟩ <;> simp only [exec, hop.apply_eq]

theorem heightAfter_eq (h : i.Respelled j) (height : Nat) :
    i.heightAfter height = j.heightAfter height := by
  cases h <;> rfl

theorem eq_push_iff (h : i.Respelled j) (v : Float) : i = .push v ↔ j = .push v := by
  cases h with
  | same => exact Iff.rfl
  | binary _ => exact iff_of_false Instr.noConfusion Instr.noConfusion

end Instr.Respelled

/-! ### Programs -/

namespace Program

open List (Forall₂)

section Machine

variable {is js : List Instr} (h : Forall₂ Instr.Respelled is js)
include h

theorem exec_respelled (x : Float) (stack : List Float) : exec x is stack = exec x js stack := by
  induction h generalizing stack with
  | nil => rfl
  | @cons i j is js hi _ ih =>
    have rest := ih (i.exec x stack)
    rw [exec, List.foldl_cons, exec, List.foldl_cons, ← hi.exec_eq]
    exact rest

theorem peak_respelled (height : Nat) : peak height is = peak height js := by
  induction h generalizing height with
  | nil => rfl
  | cons hi _ ih => rw [peak, peak, hi.heightAfter_eq, ih]

theorem constant?_respelled : (⟨is⟩ : Program).constant? = (⟨js⟩ : Program).constant? := by
  refine Option.ext fun v => ?_
  rw [constant?_eq_some_iff, constant?_eq_some_iff]
  constructor
  · rintro rfl
    obtain ⟨j, rest, hj, hrest, rfl⟩ := List.forall₂_cons_left_iff.mp h
    rw [List.forall₂_nil_left_iff.mp hrest, (hj.eq_push_iff v).mp rfl]
  · rintro rfl
    obtain ⟨i, rest, hi, hrest, rfl⟩ := List.forall₂_cons_right_iff.mp h
    rw [List.forall₂_nil_right_iff.mp hrest, (hi.eq_push_iff v).mpr rfl]

/-- **Respelled programs do the same**, to the scratch stack too. -/
theorem evalOn_respelled (x : Float) (scratch : List Float) :
    (⟨is⟩ : Program).evalOn x scratch = (⟨js⟩ : Program).evalOn x scratch := by
  unfold evalOn
  rw [constant?_respelled h]
  simp only [exec_respelled h]

end Machine

/-! ### Folding -/

namespace Folding

/-- The same is known of every slot, and what is emitted is respelled. -/
structure Respelled (s s' : Folding) : Prop where
  emitted : Forall₂ Instr.Respelled s.emitted s'.emitted
  known : s.known = s'.known

/-- **A step of the folder** on a respelled instruction. -/
theorem Respelled.step {s s' : Folding} {i j : Instr} (h : s.Respelled s')
    (hi : i.Respelled j) : (s.step i).Respelled (s'.step j) := by
  obtain ⟨emitted, known⟩ := s
  obtain ⟨emitted', known'⟩ := s'
  obtain ⟨hemitted, rfl⟩ := h
  cases hi with
  | same i =>
    have kept : Forall₂ Instr.Respelled (i :: emitted) (i :: emitted') := .cons (.same i) hemitted
    rcases i with v | _ | op | op
    · exact ⟨kept, rfl⟩
    · exact ⟨kept, rfl⟩
    · rcases known with _ | ⟨_ | a, known⟩
      · exact ⟨kept, rfl⟩
      · exact ⟨kept, rfl⟩
      · exact ⟨.cons (.same _) (List.forall₂_drop 1 hemitted), rfl⟩
    · rcases known with _ | ⟨_ | b, _ | ⟨_ | a, known⟩⟩
      case cons.some.cons.some => exact ⟨.cons (.same _) (List.forall₂_drop 2 hemitted), rfl⟩
      all_goals exact ⟨kept, rfl⟩
  | @binary op op' hop =>
    have kept : Forall₂ Instr.Respelled (.binary op :: emitted) (.binary op' :: emitted') :=
      .cons (.binary hop) hemitted
    rcases known with _ | ⟨_ | b, _ | ⟨_ | a, known⟩⟩
    case cons.some.cons.some =>
      -- both powers of two known numbers are the same number
      simp only [Folding.step, hop.apply_eq]
      exact ⟨.cons (.same _) (List.forall₂_drop 2 hemitted), rfl⟩
    all_goals exact ⟨kept, rfl⟩

/-- A run of the folder on respelled instructions. -/
theorem Respelled.foldl {s s' : Folding} {is js : List Instr} (h : s.Respelled s')
    (hrest : Forall₂ Instr.Respelled is js) :
    (is.foldl Folding.step s).Respelled (js.foldl Folding.step s') := by
  induction hrest generalizing s s' with
  | nil => exact h
  | cons hi _ ih => exact ih (h.step hi)

end Folding

/-- **Folding commutes with respelling**, whatever the instructions are. -/
theorem foldInstrs_respelled {is js : List Instr} (h : Forall₂ Instr.Respelled is js) :
    Forall₂ Instr.Respelled (foldInstrs is) (foldInstrs js) := by
  have start : Folding.Respelled ⟨[], []⟩ ⟨[], []⟩ := ⟨.nil, rfl⟩
  exact List.forall₂_reverse_iff.mpr (start.foldl h).emitted

end Program

/-! ### Formulas -/

namespace Expr

/-- A formula is **respelled** if any of its powers are written the other way. -/
inductive Respelled : Expr → Expr → Prop
  | const (value : Float) : Respelled (.const value) (.const value)
  | var : Respelled .var .var
  | named (c : Constant) : Respelled (.named c) (.named c)
  | unary (op : UnaryOp) {a a' : Expr} (h : Respelled a a') :
    Respelled (.unary op a) (.unary op a')
  | binary {op op' : BinaryOp} {a a' b b' : Expr} (hop : op.Respelled op') (ha : Respelled a a')
    (hb : Respelled b b') : Respelled (.binary op a b) (.binary op' a' b')

/-- The **part of a formula** at a place, which says at every operation on the way whether to go on
with its last operand. -/
def part? : List Bool → Expr → Option Expr
  | [], t => some t
  | last :: place, unary _ a => if last then none else a.part? place
  | last :: place, binary _ a b => if last then b.part? place else a.part? place
  | _ :: _, _ => none

namespace Respelled

variable {t u : Expr}

theorem eval_eq (h : t.Respelled u) (x : Float) : t.eval x = u.eval x := by
  induction h with
  | const _ | var | named _ => rfl
  | unary op _ ih => rw [eval, eval, ih]
  | binary hop _ _ iha ihb => rw [eval, eval, hop.apply_eq, iha, ihb]

theorem value?_eq (h : t.Respelled u) : t.value? = u.value? := by
  induction h with
  | const _ | var | named _ => rfl
  | unary op _ ih => rw [value?_unary, value?_unary, ih]
  | binary hop _ _ iha ihb => rw [value?_binary, value?_binary, hop.apply_eq, iha, ihb]

/-- Where one formula has a part, the other has it respelled. -/
theorem part? (h : t.Respelled u) (place : List Bool) :
    Option.Rel Respelled (t.part? place) (u.part? place) := by
  induction h generalizing place with
  | const v =>
    cases place with
    | nil => exact .some (.const v)
    | cons => exact .none
  | var =>
    cases place with
    | nil => exact .some .var
    | cons => exact .none
  | named c =>
    cases place with
    | nil => exact .some (.named c)
    | cons => exact .none
  | unary op h ih =>
    rcases place with _ | ⟨_ | _, place⟩
    · exact .some (.unary op h)
    · exact ih place
    · exact .none
  | binary hop ha hb iha ihb =>
    rcases place with _ | ⟨_ | _, place⟩
    · exact .some (.binary hop ha hb)
    · exact iha place
    · exact ihb place

/-- The parts at one place have **the same value of their own**, or none. -/
theorem value?_part?_eq (h : t.Respelled u) (place : List Bool) :
    (t.part? place).map value? = (u.part? place).map value? := by
  have parts := h.part? place
  generalize t.part? place = a, u.part? place = b at parts ⊢
  cases parts with
  | some h => exact congrArg some h.value?_eq
  | none => rfl

theorem foldConstants (h : t.Respelled u) : t.foldConstants.Respelled u.foldConstants := by
  induction h with
  | const v => exact .const v
  | var => exact .var
  | named c => exact .const c.value
  | @unary op a a' h ih =>
    have same := (Respelled.unary op h).value?_eq
    rcases hv : (Expr.unary op a).value? with _ | v
    · have ha : a.value? = none := by simpa [value?_unary] using hv
      rw [foldConstants_unary ha, foldConstants_unary (h.value?_eq ▸ ha)]
      exact .unary op ih
    · rw [foldConstants_of_value? hv, foldConstants_of_value? (same ▸ hv)]
      exact .const v
  | @binary op op' a a' b b' hop ha hb iha ihb =>
    have same := (Respelled.binary hop ha hb).value?_eq
    rcases hv : (Expr.binary op a b).value? with _ | v
    · rw [foldConstants_binary hv, foldConstants_binary (same ▸ hv)]
      exact .binary hop iha ihb
    · rw [foldConstants_of_value? hv, foldConstants_of_value? (same ▸ hv)]
      exact .const v

theorem lower (h : t.Respelled u) :
    List.Forall₂ Instr.Respelled (Program.lower t) (Program.lower u) := by
  induction h with
  | const _ | var | named _ => exact .cons (.same _) .nil
  | unary op _ ih => exact List.rel_append ih (.cons (.same _) .nil)
  | binary hop _ _ iha ihb =>
    exact List.rel_append iha (List.rel_append ihb (.cons (.binary hop) .nil))

end Respelled

end Expr

namespace Program

/-- **Powers may be written either way.** Take a formula and any respelling of it. Both trees, both
programs and both folded programs have the same values, on any scratch stack. The same parts are folded
to the same numbers, and what is left of one tree is a respelling of what is left of the other. The
folded programs differ in nothing but the spelling of powers, each in its place, so they are equally
long and need equally high stacks. -/
theorem respelled_powers_agree {t u : Expr} (h : t.Respelled u) :
    (∀ x scratch, t.eval x = u.eval x ∧
      ((ofExpr t).evalOn x scratch).1 = t.eval x ∧ ((ofExpr u).evalOn x scratch).1 = t.eval x ∧
      ((ofExpr t).fold.evalOn x scratch).1 = t.eval x ∧
      ((ofExpr u).fold.evalOn x scratch).1 = t.eval x ∧
      (ofExpr t).evalOn x scratch = (ofExpr u).evalOn x scratch ∧
      (ofExpr t).fold.evalOn x scratch = (ofExpr u).fold.evalOn x scratch) ∧
    (∀ place, (t.part? place).map Expr.value? = (u.part? place).map Expr.value?) ∧
    ((ofExpr t).fold = ofExpr t.foldConstants ∧ (ofExpr u).fold = ofExpr u.foldConstants ∧
      t.foldConstants.Respelled u.foldConstants) ∧
    List.Forall₂ Instr.Respelled (ofExpr t).fold.instrs (ofExpr u).fold.instrs ∧
    (ofExpr t).fold.instrs.length = (ofExpr u).fold.instrs.length ∧
    (ofExpr t).fold.maxStack = (ofExpr u).fold.maxStack := by
  have folded : List.Forall₂ Instr.Respelled (ofExpr t).fold.instrs (ofExpr u).fold.instrs :=
    foldInstrs_respelled h.lower
  refine ⟨fun x scratch => ?_, h.value?_part?_eq,
    ⟨fold_ofExpr t, fold_ofExpr u, h.foldConstants⟩, folded, folded.length_eq,
    peak_respelled folded 0⟩
  have same := h.eval_eq x
  refine ⟨same, evalOn_ofExpr t x scratch, ?_, evalOn_fold_ofExpr t x scratch, ?_,
    evalOn_respelled h.lower x scratch, evalOn_respelled folded x scratch⟩
  · rw [evalOn_ofExpr, same]
  · rw [evalOn_fold_ofExpr, same]

/-- `x^pow(2, 3)` and `pow(x, 2^3)`. -/
theorem respelled_powers_agree_tower :
    let t : Expr := .binary .pow .var (.binary (.call .pow) (.const 2) (.const 3))
    let u : Expr := .binary (.call .pow) .var (.binary .pow (.const 2) (.const 3))
    t.Respelled u ∧ (∀ x, (ofExpr t).fold.eval x = (ofExpr u).fold.eval x) ∧
      (ofExpr t).fold.instrs.length = (ofExpr u).fold.instrs.length := by
  intro t u
  have respelled : t.Respelled u :=
    .binary .asCall .var (.binary .asOperator (.const 2) (.const 3))
  obtain ⟨values, -, -, -, length, -⟩ := respelled_powers_agree respelled
  refine ⟨respelled, fun x => ?_, length⟩
  obtain ⟨-, -, -, -, -, -, same⟩ := values x []
  exact congrArg Prod.fst same

end Program

end CurvePlot
