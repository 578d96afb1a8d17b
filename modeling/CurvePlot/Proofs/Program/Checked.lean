import CurvePlot.Proofs.Failure
import CurvePlot.Proofs.Program.StackHeight
import Mathlib.Data.List.DropRight

/-!
# Folding and measuring with checks

The folder looks at slots of its shadow stack by their index, and takes as many instructions back as
it has found known operands. It may be given any list of instructions, also one that lacks operands.
Here a slot that is not there, or an instruction taken back that was never emitted, gives nothing.
Every slot that the folder knows is of an instruction that it has emitted, so the output is always at
least as long as the shadow stack (`Folding.Covered`), and the folder finds what it takes back
(`foldInstrs?_eq`).

The height of the stack may fall below zero on the way through a list that lacks operands. The
greatest height is counted from zero on, so it is a count even then; for the program of a formula it
is the stack that the program needs (`measure?_of_isSafe`).
-/

namespace CurvePlot

namespace Program

/-! ### Folding -/

namespace Folding

/-- Keep the first instructions that were emitted, as many as there are without the last `n`. -/
def takeBack? (emitted : List Instr) (n : Nat) : Option (List Instr) :=
  (difference? emitted.length n).map fun kept => emitted.rtake kept

theorem takeBack?_of_le {emitted : List Instr} {n : Nat} (h : n ≤ emitted.length) :
    takeBack? emitted n = some (emitted.drop n) := by
  have hkept : emitted.length - (emitted.length - n) = n := by omega
  rw [takeBack?, difference?_of_le h, Option.map_some, List.rtake, hkept]

/-- Fold one more instruction, with checks. -/
def step? (s : Folding) (i : Instr) : Option Folding :=
  match i with
  | .push value => some ⟨i :: s.emitted, some value :: s.known⟩
  | .load => some ⟨i :: s.emitted, none :: s.known⟩
  | .unary op =>
    match s.known with
    | some a :: known => some ⟨.push (op.apply a) :: s.emitted.drop 1, some (op.apply a) :: known⟩
    | known => some ⟨i :: s.emitted, known⟩
  | .binary op =>
    if s.known.length < 2 then
      some ⟨i :: s.emitted, s.known⟩
    else do
      let left ← s.known[1]?
      let right ← s.known[0]?
      match left, right with
      | some a, some b =>
        let emitted ← takeBack? s.emitted 2
        return ⟨.push (op.apply a b) :: emitted, some (op.apply a b) :: s.known.drop 2⟩
      | _, _ => return ⟨i :: s.emitted, none :: s.known.drop 2⟩

/-- The output is at least as long as the shadow stack. -/
def Covered (s : Folding) : Prop :=
  s.known.length ≤ s.emitted.length

/-- A step keeps the output as long as the shadow stack, on any instruction. -/
theorem Covered.step {s : Folding} (h : s.Covered) (i : Instr) : (s.step i).Covered := by
  obtain ⟨emitted, known⟩ := s
  unfold Covered at h
  rcases i with v | _ | op | op
  · exact Nat.succ_le_succ h
  · exact Nat.succ_le_succ h
  · rcases known with _ | ⟨_ | a, known⟩
    · exact Nat.zero_le _
    · exact Nat.le_succ_of_le h
    -- one instruction is replaced by one
    · simp only [Folding.step, Covered, List.length_cons, List.length_drop] at h ⊢
      omega
  · rcases known with _ | ⟨_ | b, _ | ⟨_ | a, known⟩⟩
    -- at most two slots go, and one is put in their place
    all_goals
      simp only [Folding.step, Covered, List.length_cons, List.length_nil, List.length_drop] at h ⊢
      omega

/-- **The output is always at least as long as the shadow stack.** -/
theorem covered_foldl (instrs : List Instr) :
    (instrs.foldl Folding.step ⟨[], []⟩).Covered := by
  have covered : Covered ⟨[], []⟩ := Nat.le_refl 0
  generalize (⟨[], []⟩ : Folding) = s at covered
  induction instrs generalizing s with
  | nil => exact covered
  | cons i rest ih => exact ih (s.step i) (covered.step i)

/-- As long as the output is as long as the shadow stack, a step finds what it takes. -/
theorem Covered.step?_eq {s : Folding} (h : s.Covered) (i : Instr) :
    s.step? i = some (s.step i) := by
  obtain ⟨emitted, known⟩ := s
  unfold Covered at h
  rcases i with v | _ | op | op
  · rfl
  · rfl
  · rcases known with _ | ⟨_ | a, known⟩ <;> rfl
  · rcases known with _ | ⟨_ | b, _ | ⟨_ | a, known⟩⟩
    · rfl
    · rfl
    · rfl
    · rfl
    · rfl
    · rfl
    · have htake : takeBack? emitted 2 = some (emitted.drop 2) :=
        takeBack?_of_le (Nat.le_trans (Nat.le_add_left 2 known.length) h)
      simp [step?, htake, Folding.step]

/-- A run of the folder with checks is a run without. -/
theorem Covered.foldlM_step? {s : Folding} (h : s.Covered) (instrs : List Instr) :
    instrs.foldlM step? s = some (instrs.foldl Folding.step s) := by
  induction instrs generalizing s with
  | nil => rfl
  | cons i rest ih =>
    rw [List.foldlM_cons, h.step?_eq, List.foldl_cons]
    exact ih (h.step i)

end Folding

/-- Fold a list of instructions, with checks. -/
def foldInstrs? (instrs : List Instr) : Option (List Instr) := do
  let s ← instrs.foldlM Folding.step? ⟨[], []⟩
  return s.emitted.reverse

/-- **The folder finds what it takes**, whatever the instructions are. -/
theorem foldInstrs?_eq (instrs : List Instr) : foldInstrs? instrs = some (foldInstrs instrs) := by
  have covered : Folding.Covered ⟨[], []⟩ := Nat.le_refl 0
  rw [foldInstrs?, covered.foldlM_step? instrs]
  rfl

/-! ### Measuring -/

/-- What an instruction does to the **height** of the stack, which may fall below zero. -/
def effect : Instr → ℤ
  | .push _ => 1
  | .load => 1
  | .unary _ => 0
  | .binary _ => -1

/-- The height after some instructions, and the greatest one on the way. -/
def heights (height greatest : ℤ) : List Instr → ℤ × ℤ
  | [] => (height, greatest)
  | i :: rest => heights (height + effect i) (max greatest (height + effect i)) rest

/-- The greatest height as a count, if it is one. -/
def measure? (instrs : List Instr) : Option Nat :=
  let greatest := (heights 0 0 instrs).2
  if 0 ≤ greatest then some greatest.toNat else none

/-- The greatest height only grows. -/
theorem le_heights (height greatest : ℤ) (instrs : List Instr) :
    greatest ≤ (heights height greatest instrs).2 := by
  induction instrs generalizing height greatest with
  | nil => exact Int.le_refl greatest
  | cons i rest ih => exact Int.le_trans (Int.le_max_left _ _) (ih _ _)

/-- **The greatest height is a count**, whatever the instructions are. -/
theorem measure?_eq (instrs : List Instr) :
    measure? instrs = some (heights 0 0 instrs).2.toNat :=
  if_pos (le_heights 0 0 instrs)

/-- On the way through a stack-safe list the height is the height of the stack. -/
theorem heights_of_isSafe {height : Nat} {instrs : List Instr} (h : IsSafe height instrs)
    (greatest : Nat) :
    (heights height (max greatest height : Nat) instrs).2 =
      (max greatest (peak height instrs) : Nat) := by
  induction instrs generalizing height greatest with
  | nil => rfl
  | cons i rest ih =>
    obtain ⟨found, h⟩ := h
    have hheight : (height : ℤ) + effect i = (i.heightAfter height : Nat) := by
      rcases i with v | _ | op | op <;>
        simp only [Instr.operands, Instr.heightAfter, effect] at found ⊢ <;> omega
    have hgreatest (m n : Nat) : max (m : ℤ) n = (max m n : Nat) := by omega
    rw [heights, hheight, hgreatest, ih h, peak, Nat.max_assoc]

/-- A stack-safe program is measured as the stack it needs. -/
theorem measure?_of_isSafe {p : Program} (h : IsSafe 0 p.instrs) :
    measure? p.instrs = some p.maxStack := by
  have hheights := heights_of_isSafe h 0
  simp only [Nat.max_self, Nat.zero_max] at hheights
  rw [measure?_eq]
  exact congrArg (some ·.toNat) hheights

theorem measure?_ofExpr (t : Expr) : measure? (ofExpr t).instrs = some (ofExpr t).maxStack :=
  measure?_of_isSafe (isSafe_lower t 0)

theorem measure?_fold_ofExpr (t : Expr) :
    measure? (ofExpr t).fold.instrs = some (ofExpr t).fold.maxStack := by
  rw [fold_ofExpr]
  exact measure?_ofExpr t.foldConstants

end Program

end CurvePlot
