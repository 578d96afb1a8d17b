import CurvePlot.Expr.Parser
import CurvePlot.Log
import CurvePlot.Program.Fold

/-!
# Curves

A `Curve` is a formula made ready for plotting: its source text, its tree and its folded
program. A curve can only be had by compiling a text, so its tree is what the text spells and
its program is what the tree folds to.
-/

namespace CurvePlot

/-- A compiled formula. -/
structure Curve where
  /-- The text that was compiled. -/
  source : String
  /-- The formula as a tree. -/
  tree : Expr
  /-- The program that computes it. -/
  program : Program
  /-- The tree is what the text spells. -/
  tree_eq : Expr.parse source = .ok tree
  /-- The program is the folded program of the tree. -/
  program_eq : program = (Program.ofExpr tree).fold

namespace Curve

/-- The curve of a text, or the first thing that is wrong with the text. -/
def ofSource (source : String) : Except ParseError Curve :=
  match h : Expr.parse source with
  | .error cause => .error cause
  | .ok tree => .ok ⟨source, tree, (Program.ofExpr tree).fold, h, rfl⟩

/-- The record that is left when a curve has been compiled. -/
def compiledMessage (c : Curve) : String :=
  s!"compiled '{c.source}': {c.tree.nodeCount} nodes, {c.program.instrs.length} ops, " ++
    s!"stack depth {c.program.maxStack}"

/-- **Compile** a text. Only success leaves a record. -/
def compile (source : String) : Logged (Except ParseError Curve) :=
  match ofSource source with
  | .error cause => return .error cause
  | .ok c => do
    Logged.note .debug c.compiledMessage
    return .ok c

/-- The value of a curve at `x`. -/
def eval (c : Curve) (x : Float) : Float :=
  c.program.eval x

/-- The value of a curve at `x` computed on a scratch stack, and the stack afterwards. -/
def evalOn (c : Curve) (x : Float) (scratch : List Float) : Float × List Float :=
  c.program.evalOn x scratch

/-- Whether a curve was found to be the same number everywhere. -/
def isConstant (c : Curve) : Bool :=
  c.program.constant?.isSome

/-- The parts of a curve, one to a line. -/
def describe (c : Curve) : String :=
  "\x7b\n    Expression: " ++ c.source ++ "\n    Tree: " ++ c.tree.text ++
    "\n    Program: " ++ c.program.text ++ "\n\x7d\n"

/-- Whether two curves have the same text, tree and program. -/
def same (c d : Curve) : Bool :=
  c.source == d.source && c.tree.same d.tree && c.program.same d.program

end Curve

end CurvePlot
