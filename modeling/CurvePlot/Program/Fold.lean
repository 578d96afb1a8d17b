import CurvePlot.Program.Basic

/-!
# Folding constants

An operation whose operands are known numbers can be carried out before `x` is known. The
folder reads a program from left to right and keeps, beside the instructions it has emitted,
what is **known** of every stack slot. A known slot at the top was pushed by the last
instruction emitted, two known slots by the last two, so an operation on known operands
replaces those instructions by one number.

Operations are carried out as the machine would carry them out, and never regrouped, so a
folded program computes the same bits.
-/

namespace CurvePlot

namespace Program

/-- A program in the middle of being folded. -/
structure Folding where
  /-- The instructions emitted so far, latest first. -/
  emitted : List Instr
  /-- What is known of the stack, top first. -/
  known : List (Option Float)

namespace Folding

/-- Fold one more instruction. -/
def step (s : Folding) (i : Instr) : Folding :=
  match i, s.known with
  | .push value, known => ⟨i :: s.emitted, some value :: known⟩
  | .load, known => ⟨i :: s.emitted, none :: known⟩
  | .unary op, some a :: known =>
    let value := op.apply a
    ⟨.push value :: s.emitted.drop 1, some value :: known⟩
  | .unary _, known => ⟨i :: s.emitted, known⟩
  | .binary op, some b :: some a :: known =>
    let value := op.apply a b
    ⟨.push value :: s.emitted.drop 2, some value :: known⟩
  | .binary _, _ :: _ :: known => ⟨i :: s.emitted, none :: known⟩
  | .binary _, known => ⟨i :: s.emitted, known⟩

end Folding

/-- Fold a list of instructions. -/
def foldInstrs (instrs : List Instr) : List Instr :=
  (instrs.foldl Folding.step ⟨[], []⟩).emitted.reverse

/-- The program with its **constant parts carried out**. -/
def fold (p : Program) : Program :=
  ⟨foldInstrs p.instrs⟩

end Program

end CurvePlot
