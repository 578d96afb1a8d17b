import CurvePlot.Expr.Parser

/-!
# The grammar of formulas

The grammar is a relation, said without the reader: `Derives c l ts t ls` means that the
tokens `ts` are a phrase of the kind `c` with the tree `t`, when the phrase stands at the
level `l`, and that `ls` are the levels of the operands in it, from left to right. A sign, a
pair of parentheses, an argument list and the right-hand side of `^` are one level deeper than
what they stand in; nothing else is.

The level plays no part in what is derived. It is there to say what the limits of the reader
mean (`FitsIn`): a bound on the levels of operands, and a bound on the depth of every sum,
difference, product and quotient in the tree.
-/

namespace CurvePlot

/-- Whether chains of the operator are read from left to right: `+ - * /` but not `^`. -/
def BinaryOp.isChain : BinaryOp → Bool
  | add | sub | mul | div => true
  | pow | call _ => false

namespace Expr

open Token (Kind)

/-! ### Phrases -/

/-- The kinds of phrases, from the loosest to the tightest. -/
inductive Phrase where
  | sum
  | product
  | power
  | signed
  | operand
deriving DecidableEq

/-- The operator of a sum that a token stands for. -/
def sumOp? : Kind → Option BinaryOp
  | .plus => some .add
  | .minus => some .sub
  | _ => none

/-- The operator of a product that a token stands for. -/
def productOp? : Kind → Option BinaryOp
  | .star => some .mul
  | .slash => some .div
  | _ => none

/-- The **grammar of formulas**: a phrase, the level it stands at, its tokens, its tree and the
levels of its operands. -/
inductive Derives : Phrase → Nat → List Kind → Expr → List Nat → Prop where
  | number (l : Nat) (value : Float) : Derives .operand l [.number value] (.const value) [l]
  | var {s : String} (l : Nat) (name : Builtin.ofName? s = some .x) :
    Derives .operand l [.name s] .var [l]
  | named {s : String} {c : Constant} (l : Nat)
    (name : Builtin.ofName? s = some (.constant c)) :
    Derives .operand l [.name s] (.named c) [l]
  | group {l : Nat} {ts : List Kind} {t : Expr} {ls : List Nat}
    (inside : Derives .sum (l + 1) ts t ls) :
    Derives .operand l (.lparen :: (ts ++ [.rparen])) t (l :: ls)
  | callUnary {l : Nat} {s : String} {f : UnaryFunction} {ts : List Kind} {a : Expr}
    {ls : List Nat} (name : Builtin.ofName? s = some (.callable (.unary f)))
    (argument : Derives .sum (l + 1) ts a ls) :
    Derives .operand l (.name s :: .lparen :: (ts ++ [.rparen])) (.unary (.call f) a) (l :: ls)
  | callBinary {l : Nat} {s : String} {f : BinaryFunction} {ts us : List Kind} {a b : Expr}
    {ls ms : List Nat} (name : Builtin.ofName? s = some (.callable (.binary f)))
    (first : Derives .sum (l + 1) ts a ls) (second : Derives .sum (l + 1) us b ms) :
    Derives .operand l (.name s :: .lparen :: (ts ++ .comma :: (us ++ [.rparen])))
      (.binary (.call f) a b) (l :: (ls ++ ms))
  | signedOfOperand {l : Nat} {ts : List Kind} {t : Expr} {ls : List Nat}
    (operand : Derives .operand l ts t ls) : Derives .signed l ts t ls
  | minus {l : Nat} {ts : List Kind} {t : Expr} {ls : List Nat}
    (inside : Derives .signed (l + 1) ts t ls) :
    Derives .signed l (.minus :: ts) (.unary .neg t) ls
  | plus {l : Nat} {ts : List Kind} {t : Expr} {ls : List Nat}
    (inside : Derives .signed (l + 1) ts t ls) : Derives .signed l (.plus :: ts) t ls
  | powerOfSigned {l : Nat} {ts : List Kind} {t : Expr} {ls : List Nat}
    (base : Derives .signed l ts t ls) : Derives .power l ts t ls
  | power {l : Nat} {ts us : List Kind} {a b : Expr} {ls ms : List Nat}
    (base : Derives .signed l ts a ls) (exponent : Derives .power (l + 1) us b ms) :
    Derives .power l (ts ++ .caret :: us) (.binary .pow a b) (ls ++ ms)
  | productOfPower {l : Nat} {ts : List Kind} {t : Expr} {ls : List Nat}
    (factor : Derives .power l ts t ls) : Derives .product l ts t ls
  | product {l : Nat} {k : Kind} {op : BinaryOp} {ts us : List Kind} {a b : Expr}
    {ls ms : List Nat} (operator : productOp? k = some op)
    (left : Derives .product l ts a ls) (right : Derives .power l us b ms) :
    Derives .product l (ts ++ k :: us) (.binary op a b) (ls ++ ms)
  | sumOfProduct {l : Nat} {ts : List Kind} {t : Expr} {ls : List Nat}
    (term : Derives .product l ts t ls) : Derives .sum l ts t ls
  | sum {l : Nat} {k : Kind} {op : BinaryOp} {ts us : List Kind} {a b : Expr}
    {ls ms : List Nat} (operator : sumOp? k = some op)
    (left : Derives .sum l ts a ls) (right : Derives .product l us b ms) :
    Derives .sum l (ts ++ k :: us) (.binary op a b) (ls ++ ms)

/-- A phrase begins with a token, and not with a closing parenthesis. -/
theorem Derives.exists_cons {c : Phrase} {l : Nat} {ts : List Kind} {t : Expr} {ls : List Nat}
    (h : Derives c l ts t ls) : ∃ k rest, ts = k :: rest ∧ k ≠ .rparen := by
  induction h with
  | number | var | named | group | callUnary | callBinary | minus | plus =>
    exact ⟨_, _, rfl, by simp⟩
  | signedOfOperand _ ih | powerOfSigned _ ih | productOfPower _ ih | sumOfProduct _ ih =>
    exact ih
  | power _ _ ih _ | product _ _ _ ih _ | sum _ _ _ ih _ =>
    obtain ⟨k, rest, rfl, hk⟩ := ih
    exact ⟨k, _, rfl, hk⟩

/-- Some operand of a phrase stands at least as deep as the phrase. -/
theorem Derives.exists_level {c : Phrase} {l : Nat} {ts : List Kind} {t : Expr} {ls : List Nat}
    (h : Derives c l ts t ls) : ∃ m ∈ ls, l ≤ m := by
  induction h with
  | number l | var l | named l => exact ⟨l, by simp⟩
  | @group l | @callUnary l | @callBinary l => exact ⟨l, by simp⟩
  | signedOfOperand _ ih | powerOfSigned _ ih | productOfPower _ ih | sumOfProduct _ ih =>
    exact ih
  | minus _ ih | plus _ ih =>
    obtain ⟨m, hm, hl⟩ := ih
    exact ⟨m, hm, by omega⟩
  | power _ _ ih _ | product _ _ _ ih _ | sum _ _ _ ih _ =>
    obtain ⟨m, hm, hl⟩ := ih
    exact ⟨m, List.mem_append_left _ hm, hl⟩

/-! ### Limits -/

/-- Every sum, difference, product and quotient in a tree has at most the depth `d`. -/
def ChainsWithin (d : Nat) : Expr → Prop
  | const _ => True
  | var => True
  | named _ => True
  | unary _ a => a.ChainsWithin d
  | binary op a b =>
    (op.isChain = true → (binary op a b).depth ≤ d) ∧ a.ChainsWithin d ∧ b.ChainsWithin d

/-- A derivation **fits in the limits** if no operand stands too deep and no chain is too
deep. -/
structure FitsIn (limits : Limits) (levels : List Nat) (t : Expr) : Prop where
  level_le : ∀ l ∈ levels, l ≤ limits.nesting
  chains : t.ChainsWithin limits.depth

theorem isChain_of_productOp? {k : Kind} {op : BinaryOp} (h : productOp? k = some op) :
    op.isChain = true := by
  cases k <;> simp [productOp?] at h <;> subst h <;> rfl

theorem isChain_of_sumOp? {k : Kind} {op : BinaryOp} (h : sumOp? k = some op) :
    op.isChain = true := by
  cases k <;> simp [sumOp?] at h <;> subst h <;> rfl

/-! ### What a frame waits for -/

/-- How tightly a phrase binds. -/
def Phrase.rank : Phrase → Nat
  | sum => 0
  | product => 1
  | power => 2
  | signed => 3
  | operand => 4

/-- The loosest phrase that can stand inside of some frames. -/
def slot : List Frame → Phrase
  | [] => .sum
  | .group _ :: _ => .sum
  | .call _ _ _ :: _ => .sum
  | .sum _ _ :: _ => .product
  | .product _ _ :: _ => .power
  | .power _ :: _ => .power
  | .sign _ :: _ => .signed

/-- Whether a phrase of the kind `c` can stand inside of some frames as it is. -/
def Admits (frames : List Frame) (c : Phrase) : Prop :=
  (slot frames).rank ≤ c.rank

theorem Admits.of_le {frames : List Frame} {c c' : Phrase} (h : Admits frames c)
    (hc : c.rank ≤ c'.rank) : Admits frames c' :=
  Nat.le_trans h hc

theorem admits_signed (frames : List Frame) : Admits frames .signed := by
  unfold Admits slot
  split <;> simp [Phrase.rank]

@[simp] theorem level_nil : level [] = 1 := rfl

@[simp] theorem level_cons_of_nests {frame : Frame} {frames : List Frame}
    (h : frame.nests = true) : level (frame :: frames) = level frames + 1 := by
  simp [level, h, Nat.add_assoc]

@[simp] theorem level_sum (op : BinaryOp) (left : Expr) (frames : List Frame) :
    level (.sum op left :: frames) = level frames := by
  simp [level, Frame.nests]

@[simp] theorem level_product (op : BinaryOp) (left : Expr) (frames : List Frame) :
    level (.product op left :: frames) = level frames := by
  simp [level, Frame.nests]

/-- Nothing is closed by an operand that is the loosest phrase its frames can hold. -/
theorem applySigns_of_admits {frames : List Frame} (h : Admits frames .power) (e : Expr) :
    applySigns frames e = (frames, e) := by
  unfold applySigns
  split
  · simp [Admits, slot, Phrase.rank] at h
  · simp [Admits, slot, Phrase.rank] at h
  · rfl

theorem closePowers_of_admits {frames : List Frame} (h : Admits frames .product) (e : Expr) :
    closePowers frames e = (frames, e) := by
  unfold closePowers
  split
  · simp [Admits, slot, Phrase.rank] at h
  · rfl

end Expr

end CurvePlot
