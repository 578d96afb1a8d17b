import CurvePlot.Proofs.Program.Evaluation

/-!
# The height of the stack

What an instruction does to the height of a stack depends on the height alone (`Instr.length_exec`), so
how high the stack grows, and whether every instruction finds its operands (`IsSafe`), can be read off
the instructions without any numbers. The code of a formula raises the stack by one in the end, and by
`Expr.slots` at most in between, wherever it stands in a program (`isSafe_lower_append`,
`peak_lower_append`). The right operand of an operation is computed above the value of the left one,
so a formula needs no more slots than it is deep, and folding only replaces code by shorter code.

The shadow stack of the folder has the height of the stack that the instructions before would have
left (`length_known_foldl`), so the folder finds its slots wherever the machine finds its operands.
-/

namespace CurvePlot

/-! ### One instruction -/

namespace Instr

/-- How many **operands** an instruction takes from the stack. -/
def operands : Instr → Nat
  | push _ => 0
  | load => 0
  | unary _ => 1
  | binary _ => 2

/-- The height after an instruction is that of the machine, on every stack. -/
theorem length_exec (x : Float) (i : Instr) (stack : List Float) :
    (i.exec x stack).length = i.heightAfter stack.length := by
  rcases i with v | _ | op | op
  · rfl
  · rfl
  · rcases stack with _ | ⟨a, stack⟩ <;> rfl
  · rcases stack with _ | ⟨b, _ | ⟨a, stack⟩⟩ <;> rfl

end Instr

/-! ### The slots of a formula -/

namespace Expr

/-- How many stack **slots** the code of a formula needs. -/
def slots : Expr → Nat
  | const _ => 1
  | var => 1
  | named _ => 1
  | unary _ operand => operand.slots
  | binary _ left right => max left.slots (right.slots + 1)

theorem one_le_slots (t : Expr) : 1 ≤ t.slots := by
  induction t with
  | const _ | var | named _ => exact Nat.le_refl 1
  | unary op a ih => exact ih
  | binary op a b iha _ => exact Nat.le_trans iha (Nat.le_max_left _ _)

theorem slots_le_depth (t : Expr) : t.slots ≤ t.depth := by
  induction t with
  | const _ | var | named _ => exact Nat.le_refl 1
  | unary op a ih => exact Nat.le_succ_of_le ih
  | binary op a b iha ihb =>
    simp only [slots, depth]
    omega

theorem one_le_nodeCount (t : Expr) : 1 ≤ t.nodeCount := by
  cases t <;> simp [nodeCount]

/-- What replaces a formula when its constant parts are folded is no larger, for any measure that is
one for a number and is not lowered by replacing operands of an operation by larger ones. -/
theorem measure_foldConstants_le {size : Expr → Nat} (one_le : ∀ t, 1 ≤ size t)
    (number : ∀ v, size (const v) = 1)
    (unary_le : ∀ op a a', size a' ≤ size a → size (unary op a') ≤ size (unary op a))
    (binary_le : ∀ op a a' b b', size a' ≤ size a → size b' ≤ size b →
      size (binary op a' b') ≤ size (binary op a b)) (t : Expr) :
    size t.foldConstants ≤ size t := by
  induction t with
  | const v | named _ =>
    rw [foldConstants_of_value? rfl, number]
    exact one_le _
  | var => exact Nat.le_refl _
  | unary op a ih =>
    cases hv : (unary op a).value? with
    | some v =>
      rw [foldConstants_of_value? hv, number]
      exact one_le _
    | none =>
      have ha : a.value? = none := by simpa [value?_unary] using hv
      rw [foldConstants_unary ha]
      exact unary_le op _ _ ih
  | binary op a b iha ihb =>
    cases hv : (binary op a b).value? with
    | some v =>
      rw [foldConstants_of_value? hv, number]
      exact one_le _
    | none =>
      rw [foldConstants_binary hv]
      exact binary_le op _ _ _ _ iha ihb

theorem slots_foldConstants_le (t : Expr) : t.foldConstants.slots ≤ t.slots := by
  refine measure_foldConstants_le one_le_slots (fun _ => rfl) (fun _ _ _ h => h) ?_ t
  intro op a a' b b' ha hb
  simp only [slots]
  omega

theorem nodeCount_foldConstants_le (t : Expr) : t.foldConstants.nodeCount ≤ t.nodeCount := by
  refine measure_foldConstants_le one_le_nodeCount (fun _ => rfl)
    (fun _ _ _ h => Nat.succ_le_succ h) ?_ t
  intro op a a' b b' ha hb
  exact Nat.succ_le_succ (Nat.add_le_add ha hb)

end Expr

namespace Program

/-! ### Many instructions -/

/-- The height of a stack after some instructions. -/
def heightAfter (height : Nat) (instrs : List Instr) : Nat :=
  instrs.foldl Instr.heightAfter height

theorem length_exec (x : Float) (instrs : List Instr) (stack : List Float) :
    (exec x instrs stack).length = heightAfter stack.length instrs := by
  induction instrs generalizing stack with
  | nil => rfl
  | cons i rest ih =>
    have first := ih (i.exec x stack)
    rw [Instr.length_exec] at first
    exact first

/-- Instructions are **stack-safe** from some height on if each of them finds its operands. -/
def IsSafe : Nat → List Instr → Prop
  | _, [] => True
  | height, i :: rest => i.operands ≤ height ∧ IsSafe (i.heightAfter height) rest

theorem IsSafe.of_append {height : Nat} {before after : List Instr}
    (h : IsSafe height (before ++ after)) :
    IsSafe height before ∧ IsSafe (heightAfter height before) after := by
  induction before generalizing height with
  | nil => exact ⟨trivial, h⟩
  | cons i before ih =>
    obtain ⟨found, h⟩ := h
    exact ⟨⟨found, (ih h).1⟩, (ih h).2⟩

/-- Every instruction of a stack-safe list finds its operands. -/
theorem IsSafe.operands_le {height : Nat} {before after : List Instr} {i : Instr}
    (h : IsSafe height (before ++ i :: after)) : i.operands ≤ heightAfter height before :=
  h.of_append.2.1

theorem le_peak (height : Nat) (instrs : List Instr) : height ≤ peak height instrs := by
  cases instrs with
  | nil => exact Nat.le_refl height
  | cons i rest => exact Nat.le_max_left _ _

/-- No height on the way is above the peak. -/
theorem heightAfter_le_peak {before instrs : List Instr} (part : before <+: instrs)
    (height : Nat) : heightAfter height before ≤ peak height instrs := by
  obtain ⟨after, rfl⟩ := part
  induction before generalizing height with
  | nil => exact le_peak height after
  | cons i before ih => exact Nat.le_trans (ih (i.heightAfter height)) (Nat.le_max_right _ _)

/-- Some height on the way is the peak. -/
theorem exists_heightAfter_eq_peak (height : Nat) (instrs : List Instr) :
    ∃ before, before <+: instrs ∧ heightAfter height before = peak height instrs := by
  induction instrs generalizing height with
  | nil => exact ⟨[], List.nil_prefix, rfl⟩
  | cons i rest ih =>
    obtain ⟨before, part, hpeak⟩ := ih (i.heightAfter height)
    -- the peak is reached at once or later
    rcases Nat.le_total height (peak (i.heightAfter height) rest) with later | now
    · refine ⟨i :: before, List.cons_prefix_cons.mpr ⟨rfl, part⟩, ?_⟩
      rw [peak, Nat.max_eq_right later]
      exact hpeak
    · refine ⟨[], List.nil_prefix, ?_⟩
      rw [peak, Nat.max_eq_left now]
      rfl

/-! ### The code of a formula -/

theorem length_lower (t : Expr) : (lower t).length = t.nodeCount := by
  induction t with
  | const _ | var | named _ => rfl
  | unary op a ih => simp [lower, Expr.nodeCount, ih]
  | binary op a b iha ihb =>
    simp only [lower, Expr.nodeCount, List.length_append, List.length_singleton, iha, ihb]
    omega

/-- The code of a formula is stack-safe **at every height**, and what follows it finds one number
more. -/
theorem isSafe_lower_append (t : Expr) (height : Nat) (rest : List Instr) :
    IsSafe height (lower t ++ rest) ↔ IsSafe (height + 1) rest := by
  induction t generalizing height rest with
  | const _ | var | named _ => simp [lower, IsSafe, Instr.operands, Instr.heightAfter]
  | unary op a ih =>
    rw [lower, List.append_assoc, ih]
    simp [IsSafe, Instr.operands, Instr.heightAfter]
  | binary op a b iha ihb =>
    rw [lower, List.append_assoc, List.append_assoc, iha, ihb]
    simp [IsSafe, Instr.operands, Instr.heightAfter]

theorem isSafe_lower (t : Expr) (height : Nat) : IsSafe height (lower t) := by
  have safe := (isSafe_lower_append t height []).mpr trivial
  rwa [List.append_nil] at safe

/-- The code of a formula needs its **slots** above what is on the stack already. -/
theorem peak_lower_append (t : Expr) (height : Nat) (rest : List Instr) :
    peak height (lower t ++ rest) = max (height + t.slots) (peak (height + 1) rest) := by
  induction t generalizing height rest with
  | const _ | var | named _ =>
    have above := le_peak (height + 1) rest
    simp only [lower, List.singleton_append, peak, Instr.heightAfter, Expr.slots]
    omega
  | unary op a ih =>
    have needed := a.one_le_slots
    rw [lower, List.append_assoc, ih]
    simp only [List.singleton_append, peak, Instr.heightAfter, Expr.slots]
    omega
  | binary op a b iha ihb =>
    have needed := b.one_le_slots
    rw [lower, List.append_assoc, List.append_assoc, iha, ihb]
    simp only [List.singleton_append, peak, Instr.heightAfter, Expr.slots, Nat.add_sub_cancel]
    omega

theorem maxStack_ofExpr (t : Expr) : (ofExpr t).maxStack = t.slots := by
  have peak := peak_lower_append t 0 []
  rw [List.append_nil, Nat.zero_add] at peak
  exact peak.trans (Nat.max_eq_left t.one_le_slots)

theorem maxStack_ofExpr_le_depth (t : Expr) : (ofExpr t).maxStack ≤ t.depth := by
  rw [maxStack_ofExpr]
  exact t.slots_le_depth

theorem maxStack_fold_ofExpr_le (t : Expr) : (ofExpr t).fold.maxStack ≤ (ofExpr t).maxStack := by
  rw [fold_ofExpr, maxStack_ofExpr, maxStack_ofExpr]
  exact t.slots_foldConstants_le

/-! ### The shadow stack -/

theorem length_known_step {s : Folding} {i : Instr} (found : i.operands ≤ s.known.length) :
    (s.step i).known.length = i.heightAfter s.known.length := by
  obtain ⟨emitted, known⟩ := s
  rcases i with v | _ | op | op
  · rfl
  · rfl
  · rcases known with _ | ⟨_ | a, known⟩ <;> rfl
  · rcases known with _ | ⟨_ | b, _ | ⟨_ | a, known⟩⟩
    · rfl
    -- a lone slot is left alone, but then an operand is missing
    · exact absurd found (by simp [Instr.operands])
    · rfl
    · rfl
    · exact absurd found (by simp [Instr.operands])
    · rfl
    · rfl

/-- **The shadow stack is as high as the stack** would be. -/
theorem length_known_foldl {instrs : List Instr} {s : Folding}
    (safe : IsSafe s.known.length instrs) :
    (instrs.foldl Folding.step s).known.length = heightAfter s.known.length instrs := by
  induction instrs generalizing s with
  | nil => rfl
  | cons i rest ih =>
    obtain ⟨found, safe⟩ := safe
    rw [← length_known_step found] at safe
    rw [List.foldl_cons, ih safe, length_known_step found]
    rfl

/-! ### Stack discipline -/

/-- What a program does on an **empty stack**, at every `x`. -/
structure Disciplined (p : Program) : Prop where
  /-- Every instruction finds its operands. -/
  operands_le : ∀ x before i after, p.instrs = before ++ i :: after →
    i.operands ≤ (exec x before []).length
  /-- One number is left in the end. -/
  exists_value : ∀ x, ∃ v, exec x p.instrs [] = [v]
  /-- The stack is never higher than the program says. -/
  length_le : ∀ x before, before <+: p.instrs → (exec x before []).length ≤ p.maxStack
  /-- At some point the stack is as high as the program says. -/
  exists_length_eq : ∀ x, ∃ before, before <+: p.instrs ∧ (exec x before []).length = p.maxStack

theorem disciplined_ofExpr (t : Expr) : Disciplined (ofExpr t) where
  operands_le x before i after h := by
    have safe : IsSafe 0 (ofExpr t).instrs := isSafe_lower t 0
    rw [h] at safe
    rw [length_exec]
    exact safe.operands_le
  exists_value x := ⟨t.eval x, exec_lower t x []⟩
  length_le x before part := by
    rw [length_exec]
    exact heightAfter_le_peak part 0
  exists_length_eq x := by
    obtain ⟨before, part, hpeak⟩ := exists_heightAfter_eq_peak 0 (ofExpr t).instrs
    refine ⟨before, part, ?_⟩
    rw [length_exec]
    exact hpeak

/-- **Stack discipline.** The program of a formula, folded or not, gives every instruction its operands
when it is run on an empty stack, leaves one number, and needs exactly the stack that it says; the
folder, too, finds on its shadow stack a slot for every operand. The program has an instruction for each
node of the formula and needs no more stack than the formula is deep. Folding makes neither the program
longer nor its stack higher. -/
theorem stack_discipline (t : Expr) :
    Disciplined (ofExpr t) ∧ Disciplined (ofExpr t).fold ∧
    (∀ before i after, (ofExpr t).instrs = before ++ i :: after →
      i.operands ≤ (before.foldl Folding.step ⟨[], []⟩).known.length) ∧
    (ofExpr t).instrs.length = t.nodeCount ∧
    (ofExpr t).fold.instrs.length ≤ (ofExpr t).instrs.length ∧
    (ofExpr t).fold.maxStack ≤ (ofExpr t).maxStack ∧
    (ofExpr t).maxStack ≤ t.depth := by
  refine ⟨disciplined_ofExpr t, ?_, fun before i after h => ?_, length_lower t, ?_,
    maxStack_fold_ofExpr_le t, maxStack_ofExpr_le_depth t⟩
  · rw [fold_ofExpr]
    exact disciplined_ofExpr t.foldConstants
  · have safe : IsSafe 0 (ofExpr t).instrs := isSafe_lower t 0
    rw [h] at safe
    have shadow := length_known_foldl (s := ⟨[], []⟩) safe.of_append.1
    rw [shadow]
    exact safe.operands_le
  · rw [fold_ofExpr]
    refine Nat.le_trans (Nat.le_of_eq (length_lower t.foldConstants)) ?_
    exact Nat.le_trans t.nodeCount_foldConstants_le (Nat.le_of_eq (length_lower t).symm)

end Program

end CurvePlot
