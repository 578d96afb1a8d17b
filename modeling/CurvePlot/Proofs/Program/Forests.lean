import CurvePlot.Proofs.Program.NormalForm
import CurvePlot.Proofs.Program.StackHeight
import Mathlib.Data.List.Induction

/-!
# Folding lists that are safe

The folder may be given any list of instructions in which each finds its operands, and not only the
code of one formula: several numbers may be left on the stack in the end. Such a list is the code of
**a forest**, of one formula for each number that is left (`isSafe_iff_exists_forest`), since an
operation only ever joins the topmost formulas into one. What is known of the code of a formula then
carries over tree by tree. The folder folds each tree of a forest on its own
(`foldInstrs_lowerForest`), so it changes no number on the stack, and it has nothing left to do the
second time, because a folded formula folds to itself.
-/

namespace CurvePlot

namespace Expr

theorem value?_foldConstants (t : Expr) : t.foldConstants.value? = t.value? := by
  cases hv : t.value? with
  | some v => simp [foldConstants_of_value? hv, value?, dependsOnX, eval]
  | none =>
    induction t with
    | const _ | named _ => simp [value?, dependsOnX] at hv
    | var => exact hv
    | unary op a ih =>
      have ha : a.value? = none := by simpa [value?_unary] using hv
      rw [foldConstants_unary ha, value?_unary, ih ha, Option.map_none]
    | binary op a b iha ihb =>
      -- what has a value folds to it, so an operand that folds has the value it had before
      have side (c : Expr) (ihc : c.value? = none → c.foldConstants.value? = none) :
          c.foldConstants.value? = c.value? := by
        cases hc : c.value? with
        | some w => simp [foldConstants_of_value? hc, value?, dependsOnX, eval]
        | none => exact ihc hc
      rw [foldConstants_binary hv, value?_binary, side a iha, side b ihb, ← value?_binary, hv]

/-- A folded formula **folds to itself**. -/
theorem foldConstants_foldConstants (t : Expr) :
    t.foldConstants.foldConstants = t.foldConstants := by
  induction t with
  | const v => simp [foldConstants, dependsOnX, eval]
  | named c => simp [foldConstants, dependsOnX, eval]
  | var => simp [foldConstants, dependsOnX]
  | unary op a ih =>
    cases hv : (unary op a).value? with
    | some v => rw [foldConstants_of_value? hv, foldConstants_of_value? (v := v) (by rfl)]
    | none =>
      have ha : a.value? = none := by simpa [value?_unary] using hv
      rw [foldConstants_unary ha, foldConstants_unary (by rw [value?_foldConstants, ha]), ih]
  | binary op a b iha ihb =>
    cases hv : (binary op a b).value? with
    | some v => rw [foldConstants_of_value? hv, foldConstants_of_value? (v := v) (by rfl)]
    | none =>
      have again := value?_foldConstants (binary op a b)
      rw [hv, foldConstants_binary hv] at again
      rw [foldConstants_binary hv, foldConstants_binary again, iha, ihb]

end Expr

namespace Program

/-! ### Forests -/

/-- The code of a **forest**: of formulas one after the other, the last of which is given first, as
their values lie on the stack. -/
def lowerForest : List Expr → List Instr
  | [] => []
  | t :: below => lowerForest below ++ lower t

theorem isSafe_lowerForest_append (trees : List Expr) (height : Nat) (rest : List Instr) :
    IsSafe height (lowerForest trees ++ rest) ↔ IsSafe (height + trees.length) rest := by
  induction trees generalizing rest with
  | nil => exact Iff.rfl
  | cons t below ih =>
    rw [lowerForest, List.append_assoc, ih, isSafe_lower_append, List.length_cons, Nat.add_assoc]

/-- A forest leaves the values of its trees. -/
theorem exec_lowerForest (trees : List Expr) (x : Float) :
    exec x (lowerForest trees) [] = trees.map (Expr.eval x) := by
  induction trees with
  | nil => rfl
  | cons t below ih => rw [lowerForest, exec_append, ih, exec_lower, List.map_cons]

/-- Each tree of a forest leaves one number on the stack. -/
theorem heightAfter_lowerForest (trees : List Expr) :
    heightAfter 0 (lowerForest trees) = trees.length := by
  have left := length_exec 0 (lowerForest trees) []
  rw [exec_lowerForest, List.length_map] at left
  exact left.symm

/-- **Lists that are safe are forests**: an operation joins the topmost trees into one. -/
theorem isSafe_iff_exists_forest (instrs : List Instr) :
    IsSafe 0 instrs ↔ ∃ trees, instrs = lowerForest trees := by
  constructor
  · intro safe
    induction instrs using List.reverseRecOn with
    | nil => exact ⟨[], rfl⟩
    | append_singleton instrs i ih =>
      obtain ⟨trees, rfl⟩ := ih safe.of_append.1
      have found : i.operands ≤ trees.length := by
        rw [← heightAfter_lowerForest]
        exact safe.operands_le
      rcases i with v | _ | op | op
      · exact ⟨.const v :: trees, rfl⟩
      · exact ⟨.var :: trees, rfl⟩
      · rcases trees with _ | ⟨a, below⟩
        · exact absurd found (by simp [Instr.operands])
        · exact ⟨.unary op a :: below, by simp [lowerForest, lower]⟩
      · rcases trees with _ | ⟨b, _ | ⟨a, below⟩⟩
        · exact absurd found (by simp [Instr.operands])
        · exact absurd found (by simp [Instr.operands])
        · exact ⟨.binary op a b :: below, by simp [lowerForest, lower]⟩
  · rintro ⟨trees, rfl⟩
    have safe := (isSafe_lowerForest_append trees 0 []).mpr trivial
    rwa [List.append_nil] at safe

/-! ### Folding a forest -/

/-- **The folder folds each tree on its own.** -/
theorem foldInstrs_lowerForest (trees : List Expr) :
    foldInstrs (lowerForest trees) = lowerForest (trees.map Expr.foldConstants) := by
  have emitted : ((lowerForest trees).foldl Folding.step ⟨[], []⟩).emitted =
      (lowerForest (trees.map Expr.foldConstants)).reverse := by
    induction trees with
    | nil => rfl
    | cons t below ih =>
      rw [lowerForest, List.foldl_append, foldl_step_lower, ih, List.map_cons, lowerForest,
        List.reverse_append]
  rw [foldInstrs, emitted, List.reverse_reverse]

theorem length_lowerForest_foldConstants_le (trees : List Expr) :
    (lowerForest (trees.map Expr.foldConstants)).length ≤ (lowerForest trees).length := by
  induction trees with
  | nil => exact Nat.le_refl 0
  | cons t below ih =>
    have shorter := t.nodeCount_foldConstants_le
    simp only [List.map_cons, lowerForest, List.length_append, length_lower]
    omega

/-- A folded forest is settled after any numbers, if what comes after it is. -/
theorem settled_lowerForest_foldConstants (trees : List Expr) {rest : List Instr}
    (h : ∀ pushed, Settled pushed rest) (pushed : Nat) :
    Settled pushed (lowerForest (trees.map Expr.foldConstants) ++ rest) := by
  induction trees generalizing rest with
  | nil => exact h pushed
  | cons t below ih =>
    rw [List.map_cons, lowerForest, List.append_assoc]
    refine ih fun pushed => ?_
    cases hv : t.value? with
    | none => exact (settled_lower_foldConstants hv pushed rest).mpr (h 0)
    | some v =>
      rw [Expr.foldConstants_of_value? hv]
      exact h (pushed + 1)

/-- **Folding is sound and final on every safe list**, whatever it leaves on the stack. Take any
program in which each instruction finds its operands when it is run on an empty stack. At every `x`
the folded program leaves the same stack, number by number; its instructions find their operands
again, there are no more of them, and no operation has only numbers to work on, so folding a second
time changes nothing. -/
theorem fold_of_isSafe {p : Program} (safe : IsSafe 0 p.instrs) :
    (∀ x, exec x p.fold.instrs [] = exec x p.instrs []) ∧
    IsSafe 0 p.fold.instrs ∧
    p.fold.instrs.length ≤ p.instrs.length ∧
    InNormalForm p.fold.instrs ∧
    p.fold.fold = p.fold := by
  obtain ⟨trees, forest⟩ := (isSafe_iff_exists_forest p.instrs).mp safe
  have folded : p.fold.instrs = lowerForest (trees.map Expr.foldConstants) := by
    rw [fold, forest, foldInstrs_lowerForest]
  refine ⟨fun x => ?_, ?_, ?_, ?_, ?_⟩
  · rw [folded, forest, exec_lowerForest, exec_lowerForest, List.map_map]
    exact List.map_congr_left fun t _ => t.eval_foldConstants x
  · exact (isSafe_iff_exists_forest _).mpr ⟨_, folded⟩
  · rw [folded, forest]
    exact length_lowerForest_foldConstants_le trees
  · rw [folded]
    have end_settled (pushed : Nat) : Settled pushed [] := trivial
    have settled := settled_lowerForest_foldConstants trees end_settled 0
    rw [List.append_nil] at settled
    exact settled.inNormalForm
  · have again : (trees.map Expr.foldConstants).map Expr.foldConstants =
        trees.map Expr.foldConstants := by
      rw [List.map_map]
      exact List.map_congr_left fun t _ => t.foldConstants_foldConstants
    have fixed : p.fold.fold.instrs = p.fold.instrs := by
      rw [fold, folded, foldInstrs_lowerForest, again]
    exact congrArg Program.mk fixed

/-- Three numbers are left, one of them folded from two and one not folded. -/
theorem fold_of_isSafe_three :
    let p : Program := ⟨[.push 1, .push 2, .binary .add, .load, .unary .neg, .push 4]⟩
    IsSafe 0 p.instrs ∧ p.fold = ⟨[.push 3, .load, .unary .neg, .push 4]⟩ ∧
      (∀ x, exec x p.fold.instrs [] = exec x p.instrs []) ∧ p.fold.fold = p.fold := by
  intro p
  have safe : IsSafe 0 p.instrs := by
    simp [p, IsSafe, Instr.operands, Instr.heightAfter]
  obtain ⟨same, -, -, -, final⟩ := fold_of_isSafe safe
  exact ⟨safe, by decide +kernel, same, final⟩

end Program

end CurvePlot
