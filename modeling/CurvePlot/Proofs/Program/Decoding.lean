import CurvePlot.Proofs.Program.Forests

/-!
# Programs are uniquely decodable

A program has no parentheses, and yet it tells the formula that it was lowered from. It is enough to
run it on a stack **of formulas** in place of their values (`decode?`): each instruction joins the
topmost formulas into one, so the formulas on the stack are at any time those whose code has been run
(`lowerForest_of_foldlM_grow?`). What comes out in the end is the formula itself, but for the names of
numbers, of which the code has only the values (`decode?_lower`). And what comes in is the code of a
formula whenever every instruction finds its operands and one number is left in the end.
-/

namespace CurvePlot

namespace Expr

/-- The formula with the **value of each named number** in place of its name. -/
def unnamed : Expr → Expr
  | const value => const value
  | var => var
  | named c => const c.value
  | unary op a => unary op a.unnamed
  | binary op a b => binary op a.unnamed b.unnamed

end Expr

namespace Program

/-- Without names a formula has the same code. -/
theorem lower_unnamed (t : Expr) : lower t.unnamed = lower t := by
  induction t with
  | const _ | var | named _ => rfl
  | unary op a ih => rw [Expr.unnamed, lower, lower, ih]
  | binary op a b iha ihb => rw [Expr.unnamed, lower, lower, iha, ihb]

/-! ### Running on formulas -/

/-- Carry out an instruction on a stack of **formulas**, which is given top first. Nothing comes of
an operation that lacks operands. -/
def grow? : List Expr → Instr → Option (List Expr)
  | below, .push value => some (.const value :: below)
  | below, .load => some (.var :: below)
  | a :: below, .unary op => some (.unary op a :: below)
  | b :: a :: below, .binary op => some (.binary op a b :: below)
  | _, _ => none

/-- The **formula of some instructions**, if they leave a single one. -/
def decode? (instrs : List Instr) : Option Expr :=
  match instrs.foldlM grow? [] with
  | some [t] => some t
  | _ => none

/-- The code of a formula puts the formula on the stack. -/
theorem foldlM_grow?_lower (t : Expr) (below : List Expr) (rest : List Instr) :
    (lower t ++ rest).foldlM grow? below = rest.foldlM grow? (t.unnamed :: below) := by
  induction t generalizing below rest with
  | const _ | var | named _ => rfl
  | unary op a ih =>
    rw [lower, List.append_assoc, ih]
    rfl
  | binary op a b iha ihb =>
    rw [lower, List.append_assoc, List.append_assoc, iha, ihb]
    rfl

theorem decode?_lower (t : Expr) : decode? (lower t) = some t.unnamed := by
  have left := foldlM_grow?_lower t [] []
  rw [List.append_nil] at left
  rw [decode?, left]
  rfl

/-- One instruction adds itself to the code of the formulas on the stack. -/
theorem lowerForest_of_grow? {below trees : List Expr} {i : Instr}
    (h : grow? below i = some trees) :
    lowerForest trees = lowerForest below ++ [i] ∧
      (below.map Expr.unnamed = below → trees.map Expr.unnamed = trees) := by
  unfold grow? at h
  split at h
  · cases h
    exact ⟨rfl, fun same => by rw [List.map_cons, same, Expr.unnamed]⟩
  · cases h
    exact ⟨rfl, fun same => by rw [List.map_cons, same, Expr.unnamed]⟩
  · cases h
    refine ⟨by simp [lowerForest, lower], fun same => ?_⟩
    obtain ⟨ha, same⟩ := List.cons.inj same
    rw [List.map_cons, same, Expr.unnamed, ha]
  · cases h
    refine ⟨by simp [lowerForest, lower], fun same => ?_⟩
    obtain ⟨hb, same⟩ := List.cons.inj same
    obtain ⟨ha, same⟩ := List.cons.inj same
    rw [List.map_cons, same, Expr.unnamed, ha, hb]
  · cases h

/-- **What is on the stack is what has been run**, and it has no names in it. -/
theorem lowerForest_of_foldlM_grow? {below trees : List Expr} {instrs : List Instr}
    (h : instrs.foldlM grow? below = some trees) :
    lowerForest trees = lowerForest below ++ instrs ∧
      (below.map Expr.unnamed = below → trees.map Expr.unnamed = trees) := by
  induction instrs generalizing below with
  | nil =>
    cases h
    exact ⟨(List.append_nil _).symm, id⟩
  | cons i rest ih =>
    rw [List.foldlM_cons] at h
    obtain ⟨next, hi, h⟩ := Option.bind_eq_some_iff.mp h
    obtain ⟨code, plain⟩ := lowerForest_of_grow? hi
    obtain ⟨whole, plain'⟩ := ih h
    refine ⟨?_, fun same => plain' (plain same)⟩
    rw [whole, code, List.append_assoc, List.singleton_append]

/-- **Decoding undoes lowering**, and it gives nothing else. -/
theorem decode?_eq_some_iff (instrs : List Instr) (t : Expr) :
    decode? instrs = some t ↔ lower t = instrs ∧ t.unnamed = t := by
  constructor
  · intro h
    unfold decode? at h
    split at h
    · rename_i u left
      cases h
      obtain ⟨code, plain⟩ := lowerForest_of_foldlM_grow? left
      exact ⟨code, (List.cons.inj (plain rfl)).1⟩
    · cases h
  · rintro ⟨rfl, plain⟩
    rw [decode?_lower, plain]

/-- **Only the names of numbers are lost** in a program. -/
theorem lower_eq_lower_iff (t u : Expr) : lower t = lower u ↔ t.unnamed = u.unnamed := by
  constructor
  · intro h
    have decoded := decode?_lower t
    rw [h, decode?_lower] at decoded
    exact (Option.some.inj decoded).symm
  · intro h
    rw [← lower_unnamed t, h, lower_unnamed]

/-! ### Running on numbers -/

/-- At `x`, each instruction **finds its operands** when the instructions are run on the empty stack,
and one number is left. -/
structure LeavesOne (x : Float) (instrs : List Instr) : Prop where
  operands_le : ∀ before i after, instrs = before ++ i :: after →
    i.operands ≤ (exec x before []).length
  exists_value : ∃ v, exec x instrs [] = [v]

/-- Instructions are stack-safe if each of them finds its operands on the stack of the machine. -/
theorem isSafe_of_operands_le {x : Float} {instrs : List Instr} {stack : List Float}
    (h : ∀ before i after, instrs = before ++ i :: after →
      i.operands ≤ (exec x before stack).length) : IsSafe stack.length instrs := by
  induction instrs generalizing stack with
  | nil => trivial
  | cons i rest ih =>
    refine ⟨h [] i rest rfl, ?_⟩
    rw [← Instr.length_exec x]
    refine ih fun before j after hrest => ?_
    exact h (i :: before) j after (congrArg (i :: ·) hrest)

theorem leavesOne_lower (x : Float) (t : Expr) : LeavesOne x (lower t) where
  operands_le := (disciplined_ofExpr t).operands_le x
  exists_value := (disciplined_ofExpr t).exists_value x

/-- What leaves one number is the code of a formula. -/
theorem LeavesOne.exists_lower {x : Float} {instrs : List Instr} (h : LeavesOne x instrs) :
    ∃ t, lower t = instrs := by
  have safe : IsSafe 0 instrs := isSafe_of_operands_le h.operands_le
  obtain ⟨trees, rfl⟩ := (isSafe_iff_exists_forest instrs).mp safe
  obtain ⟨v, left⟩ := h.exists_value
  -- there are as many formulas as there are numbers left
  rw [exec_lowerForest] at left
  obtain ⟨t, rfl, -⟩ := List.map_eq_singleton_iff.mp left
  exact ⟨t, rfl⟩

/-- **Programs are uniquely decodable.** A list of instructions is the program of some formula if and
only if, at any `x`, each instruction finds its operands on the empty stack and one number is left in
the end. Two formulas have the same program if and only if they are the same but for the names of
numbers; so an operation is told by its program, together with the programs of its operands in their
order. The formula without names is found by decoding, which gives nothing for other lists. -/
theorem programs_uniquely_decodable :
    (∀ (instrs : List Instr) (x : Float),
      (∃ t, (ofExpr t).instrs = instrs) ↔ LeavesOne x instrs) ∧
    (∀ t u : Expr, (ofExpr t).instrs = (ofExpr u).instrs ↔ t.unnamed = u.unnamed) ∧
    (∀ (op op' : BinaryOp) (a a' b b' : Expr),
      (ofExpr (.binary op a b)).instrs = (ofExpr (.binary op' a' b')).instrs →
        op = op' ∧ (ofExpr a).instrs = (ofExpr a').instrs ∧
          (ofExpr b).instrs = (ofExpr b').instrs) ∧
    (∀ (instrs : List Instr) (t : Expr),
      decode? instrs = some t ↔ (ofExpr t).instrs = instrs ∧ t.unnamed = t) := by
  refine ⟨fun instrs x => ?_, lower_eq_lower_iff, fun op op' a a' b b' h => ?_,
    decode?_eq_some_iff⟩
  · constructor
    · rintro ⟨t, rfl⟩
      exact leavesOne_lower x t
    · exact LeavesOne.exists_lower
  · obtain ⟨rfl, ha, hb⟩ := Expr.binary.inj ((lower_eq_lower_iff _ _).mp h)
    exact ⟨rfl, (lower_eq_lower_iff a a').mpr ha, (lower_eq_lower_iff b b').mpr hb⟩

/-- The operator `^` and a call of `pow` have programs of their own. -/
example : ofExpr (.binary .pow .var .var) ≠ ofExpr (.binary (.call .pow) .var .var) := by decide

end Program

end CurvePlot
