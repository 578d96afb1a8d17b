import CurvePlot.Proofs.Expr.Reread
import CurvePlot.Proofs.Program.StackHeight

/-!
# The shape of formulas that were read

The limits of the reader are about operands and chains, but together they bound the depth of every
tree. Outside of chains, what a level adds to a tree is a call, a sign or an exponent, and at most two
nodes of them: a call, and the power that the call is the base of. So a tree is no deeper than the
deepest chain and twice the levels above it (`Derives.depth_le`). With the standard limits that is
1534, and formulas of this depth are read (`shaped_of_parse_tower`).

A recursive function on trees calls itself as deeply as the tree is deep. This is said for all such
functions at once: a `Walk` makes something of each node from what it made of the operands, and
`Walk.runWithin` carries it out with a bound on the calls that may be open at a time.
-/

namespace CurvePlot

namespace Expr

open Token (Kind Ends Spells)

variable {limits : Limits}

/-! ### How deep a derived tree can be -/

/-- The greatest **depth of a phrase** that stands at the level `l`. A signed phrase is no power, so it
is one less. -/
def depthBound (limits : Limits) (l : Nat) : Phrase → Nat
  | .sum | .product | .power => limits.depth + 2 * (limits.nesting - l)
  | .signed | .operand => limits.depth + 2 * (limits.nesting - l) - 1

theorem FitsIn.of_cons {l : Nat} {ls : List Nat} {t : Expr} (h : FitsIn limits (l :: ls) t) :
    FitsIn limits ls t :=
  ⟨fun m hm => h.level_le m (List.mem_cons_of_mem l hm), h.chains⟩

theorem FitsIn.of_unary {ls : List Nat} {op : UnaryOp} {a : Expr}
    (h : FitsIn limits ls (unary op a)) : FitsIn limits ls a :=
  ⟨h.level_le, h.chains⟩

theorem FitsIn.of_binary {ls ms : List Nat} {op : BinaryOp} {a b : Expr}
    (h : FitsIn limits (ls ++ ms) (binary op a b)) : FitsIn limits ls a ∧ FitsIn limits ms b :=
  ⟨⟨fun l hl => h.level_le l (List.mem_append_left ms hl), h.chains.2.1⟩,
    ⟨fun l hl => h.level_le l (List.mem_append_right ls hl), h.chains.2.2⟩⟩

/-- A phrase that fits in the limits stands at a level that they allow. -/
theorem Derives.level_le {c : Phrase} {l : Nat} {ts : List Kind} {t : Expr} {ls : List Nat}
    (h : Derives c l ts t ls) (fits : FitsIn limits ls t) : l ≤ limits.nesting := by
  obtain ⟨m, hm, hl⟩ := h.exists_level
  exact Nat.le_trans hl (fits.level_le m hm)

/-- **A derived tree is not deep** if its derivation fits in the limits. -/
theorem Derives.depth_le {c : Phrase} {l : Nat} {ts : List Kind} {t : Expr} {ls : List Nat}
    (h : Derives c l ts t ls) (fits : FitsIn limits ls t) (hdepth : 2 ≤ limits.depth) :
    t.depth ≤ depthBound limits l c := by
  induction h with
  | number | var | named =>
    simp only [depth, depthBound]
    omega
  | group inside ih =>
    have hlevel := inside.level_le fits.of_cons
    have hinside := ih fits.of_cons
    simp only [depthBound] at hinside ⊢
    omega
  | callUnary name argument ih =>
    have hlevel := argument.level_le fits.of_cons.of_unary
    have hargument := ih fits.of_cons.of_unary
    simp only [depth, depthBound] at hargument ⊢
    omega
  | callBinary name first second ihFirst ihSecond =>
    obtain ⟨fitsFirst, fitsSecond⟩ := fits.of_cons.of_binary
    have hlevel := first.level_le fitsFirst
    have hfirst := ihFirst fitsFirst
    have hsecond := ihSecond fitsSecond
    simp only [depth, depthBound] at hfirst hsecond ⊢
    omega
  | signedOfOperand _ ih => exact ih fits
  | minus inside ih =>
    have hlevel := inside.level_le fits.of_unary
    have hinside := ih fits.of_unary
    simp only [depth, depthBound] at hinside ⊢
    omega
  | plus inside ih =>
    have hinside := ih fits
    simp only [depthBound] at hinside ⊢
    omega
  | powerOfSigned _ ih => exact Nat.le_trans (ih fits) (Nat.sub_le _ 1)
  | power base exponent ihBase ihExponent =>
    obtain ⟨fitsBase, fitsExponent⟩ := fits.of_binary
    have hlevel := exponent.level_le fitsExponent
    have hbase := ihBase fitsBase
    have hexponent := ihExponent fitsExponent
    simp only [depth, depthBound] at hbase hexponent ⊢
    omega
  | productOfPower _ ih | sumOfProduct _ ih => exact ih fits
  | product operator _ _ _ _ =>
    -- the limit on chains is kept by the chain itself
    exact Nat.le_add_right_of_le (fits.chains.1 (isChain_of_productOp? operator))
  | sum operator _ _ _ _ =>
    exact Nat.le_add_right_of_le (fits.chains.1 (isChain_of_sumOp? operator))

/-! ### Walks -/

/-- A **walk** over trees: what is made of each node, from what was made of its operands. -/
structure Walk (α : Type) where
  const : Float → α
  var : α
  named : Constant → α
  unary : UnaryOp → α → α
  binary : BinaryOp → α → α → α

namespace Walk

variable {α : Type}

/-- What a walk makes of a tree. -/
def run (w : Walk α) : Expr → α
  | .const value => w.const value
  | .var => w.var
  | .named c => w.named c
  | .unary op a => w.unary op (w.run a)
  | .binary op a b => w.binary op (w.run a) (w.run b)

/-- The walk with at most `calls` calls open at a time; nothing if it would need more. -/
def runWithin (w : Walk α) : (calls : Nat) → Expr → Option α
  | 0, _ => none
  | _ + 1, .const value => some (w.const value)
  | _ + 1, .var => some w.var
  | _ + 1, .named c => some (w.named c)
  | calls + 1, .unary op a => do
    let inside ← w.runWithin calls a
    return w.unary op inside
  | calls + 1, .binary op a b => do
    let left ← w.runWithin calls a
    let right ← w.runWithin calls b
    return w.binary op left right

/-- A walk needs **as many open calls as the tree is deep**. -/
theorem runWithin_eq (w : Walk α) (calls : Nat) (t : Expr) :
    w.runWithin calls t = if t.depth ≤ calls then some (w.run t) else none := by
  induction t generalizing calls with
  | const _ | var | named _ => cases calls <;> simp [runWithin, run, depth]
  | unary op a ih =>
    cases calls with
    | zero => rfl
    | succ calls =>
      simp only [runWithin, ih, depth, Nat.add_le_add_iff_right]
      split <;> rfl
  | binary op a b iha ihb =>
    cases calls with
    | zero => rfl
    | succ calls =>
      simp only [runWithin, iha, ihb, depth, Nat.add_le_add_iff_right, Nat.max_le]
      by_cases ha : a.depth ≤ calls <;> by_cases hb : b.depth ≤ calls <;> simp [ha, hb, run]

/-- Evaluation at `x`. -/
def eval (x : Float) : Walk Float where
  const value := value
  var := x
  named c := c.value
  unary op a := op.apply a
  binary op a b := op.apply a b

/-- Lowering into instructions. -/
def lower : Walk (List Instr) where
  const value := [.push value]
  var := [.load]
  named c := [.push c.value]
  unary op a := a ++ [.unary op]
  binary op a b := a ++ (b ++ [.binary op])

/-- The depth of a tree. -/
def depth : Walk Nat where
  const _ := 1
  var := 1
  named _ := 1
  unary _ a := a + 1
  binary _ a b := max a b + 1

/-- Writing a tree down. -/
def chars : Walk (List Char) where
  const value := (Expr.const value).chars
  var := Expr.var.chars
  named c := (Expr.named c).chars
  unary
    | .neg, a => '(' :: '-' :: (a ++ [')'])
    | .call f, a => f.name.toList ++ '(' :: (a ++ [')'])
  binary
    | .call f, a, b => f.name.toList ++ '(' :: (a ++ ',' :: ' ' :: (b ++ [')']))
    | op, a, b => '(' :: (a ++ ' ' :: (op.symbol.toList ++ ' ' :: (b ++ [')'])))

theorem run_eval (x : Float) (t : Expr) : (eval x).run t = t.eval x := by
  induction t with
  | const _ | var | named _ => rfl
  | unary op a ih => rw [run, ih]; rfl
  | binary op a b iha ihb => rw [run, iha, ihb]; rfl

theorem run_lower (t : Expr) : lower.run t = Program.lower t := by
  induction t with
  | const _ | var | named _ => rfl
  | unary op a ih => rw [run, ih]; rfl
  | binary op a b iha ihb => rw [run, iha, ihb]; rfl

theorem run_depth (t : Expr) : depth.run t = t.depth := by
  induction t with
  | const _ | var | named _ => rfl
  | unary op a ih => rw [run, ih]; rfl
  | binary op a b iha ihb => rw [run, iha, ihb]; rfl

theorem run_chars (t : Expr) : chars.run t = t.chars := by
  induction t with
  | const _ | var | named _ => rfl
  | unary op a ih => rw [run, ih]; cases op <;> rfl
  | binary op a b iha ihb => rw [run, iha, ihb]; cases op <;> rfl

end Walk

/-! ### The shape of a formula -/

/-- The **shape** that the standard limits give to a formula. -/
structure Shaped (t : Expr) : Prop where
  /-- No sum, difference, product or quotient is deeper than 1024. -/
  chains : t.ChainsWithin 1024
  depth_le : t.depth ≤ 1534
  /-- The numbers are finite and have their sign bits clear. -/
  unsigned : ∀ v ∈ t.numbers, v.isFinite = true ∧ Binary64.signBit v = false
  /-- No function that walks over the tree needs more than 1534 open calls. -/
  eval_within : ∀ x, (Walk.eval x).runWithin 1534 t = some (t.eval x)
  lower_within : Walk.lower.runWithin 1534 t = some (Program.lower t)
  depth_within : Walk.depth.runWithin 1534 t = some t.depth
  chars_within : Walk.chars.runWithin 1534 t = some t.chars
  /-- No program of the formula needs more than 1534 stack slots. -/
  maxStack_le : (Program.ofExpr t).maxStack ≤ 1534
  maxStack_fold_le : (Program.ofExpr t).fold.maxStack ≤ 1534

/-- **Formulas that were read are in shape**, however long their texts are. -/
theorem shaped_of_parse {source : String} {t : Expr} (parsed : parse source = .ok t) :
    Shaped t := by
  have unsigned := unsigned_of_parse parsed
  obtain ⟨tokens, -, parsed⟩ := eq_ok_of_bind parsed
  split at parsed
  · cases parsed
  obtain ⟨ls, hd, fits⟩ := exists_derives_of_ofTokens (by decide) parsed
  have shallow : t.depth ≤ 1534 := hd.depth_le fits (by decide)
  have within {α : Type} (w : Walk α) : w.runWithin 1534 t = some (w.run t) := by
    rw [w.runWithin_eq, if_pos shallow]
  have slots : (Program.ofExpr t).maxStack ≤ 1534 :=
    Nat.le_trans (Program.maxStack_ofExpr_le_depth t) shallow
  exact
    { chains := fits.chains
      depth_le := shallow
      unsigned
      eval_within := fun x => by rw [within, Walk.run_eval]
      lower_within := by rw [within, Walk.run_lower]
      depth_within := by rw [within, Walk.run_depth]
      chars_within := by rw [within, Walk.run_chars]
      maxStack_le := slots
      maxStack_fold_le := Nat.le_trans (Program.maxStack_fold_ofExpr_le t) slots }

/-! ### The deepest formulas -/

/-- The formula `sin(sin(…(x+…+x)…)^x)^x`, with `chain` operators in the sum and `levels` powers
around it. -/
def tower (chain : Nat) : (levels : Nat) → Expr
  | 0 => sumOfVars chain
  | levels + 1 => .binary .pow (.unary (.call .sin) (tower chain levels)) .var

def towerChars (chain : Nat) : (levels : Nat) → List Char
  | 0 => sumChars chain
  | levels + 1 => ['s', 'i', 'n'] ++ ('(' :: (towerChars chain levels ++ [')']) ++ ['^', 'x'])

def towerText (chain levels : Nat) : String :=
  String.ofList (towerChars chain levels)

def towerKinds (chain : Nat) : (levels : Nat) → List Kind
  | 0 => .name "x" :: sumKinds chain
  | levels + 1 =>
    .name "sin" :: (.lparen :: (towerKinds chain levels ++ [.rparen]) ++ [.caret, .name "x"])

theorem spells_towerChars (chain levels : Nat) {rest : List Char} (ends : Ends rest) :
    Spells (towerChars chain levels) (towerKinds chain levels) rest := by
  induction levels generalizing rest with
  | zero => exact spells_sumChars chain ends
  | succ levels ih =>
    have exponent : Spells ['^', 'x'] [.caret, .name "x"] rest :=
      (Spells.symbol (c := '^') rfl _).append (spells_name .x ends)
    have argument := spells_group (ih (.cons (c := ')') ⟨rfl, rfl⟩ ('^' :: 'x' :: rest)))
    have name := spells_name (.callable (.unary .sin))
      (.cons (c := '(') ⟨rfl, rfl⟩ (towerChars chain levels ++ [')'] ++ ['^', 'x'] ++ rest))
    exact name.append (argument.append exponent)

theorem depth_tower (chain levels : Nat) : (tower chain levels).depth = chain + 1 + 2 * levels := by
  induction levels with
  | zero => exact depth_sumOfVars chain
  | succ levels ih =>
    simp only [tower, depth, ih]
    omega

theorem chainsWithin_tower {chain d : Nat} (h : chain < d) (levels : Nat) :
    (tower chain levels).ChainsWithin d := by
  induction levels with
  | zero => exact chainsWithin_of_depth_le (Nat.le_trans (Nat.le_of_eq (depth_sumOfVars chain)) h)
  | succ levels ih => exact ⟨fun isChain => absurd isChain (by decide), ih, trivial⟩

/-- Each power puts what is inside of its base, and its exponent, one level deeper. -/
theorem exists_derives_tower (chain levels l : Nat) :
    ∃ ls, Derives .sum l (towerKinds chain levels) (tower chain levels) ls ∧
      ∀ m ∈ ls, m ≤ l + levels := by
  induction levels generalizing l with
  | zero =>
    refine ⟨_, derives_sumOfVars l chain, fun m hm => ?_⟩
    exact Nat.le_of_eq (List.eq_of_mem_replicate hm)
  | succ levels ih =>
    obtain ⟨ls, inside, hls⟩ := ih (l + 1)
    have base : Derives .signed l _ _ _ :=
      .signedOfOperand (.callUnary (Builtin.ofName?_name (.callable (.unary .sin))) inside)
    have exponent : Derives .power (l + 1) [.name "x"] .var [l + 1] :=
      .powerOfSigned (.signedOfOperand (.var (l + 1) (Builtin.ofName?_name .x)))
    refine ⟨_, .sumOfProduct (.productOfPower (.power base exponent)), ?_⟩
    simp only [List.mem_append, List.mem_cons, List.not_mem_nil, or_false]
    rintro m ((rfl | hm) | rfl)
    · omega
    · have hm := hls m hm
      omega
    · omega

/-- **Towers are read** up to both limits. -/
theorem parse_towerText {chain levels : Nat} (hchain : chain < 1024) (hlevels : levels < 256) :
    parse (towerText chain levels) = .ok (tower chain levels) := by
  have kinds : ∃ k ks, towerKinds chain levels = k :: ks := by
    cases levels <;> exact ⟨_, _, rfl⟩
  obtain ⟨k, ks, hcons⟩ := kinds
  obtain ⟨tokens, hkinds, hparse⟩ := exists_parse_eq (hcons ▸ spells_towerChars chain levels .nil)
  obtain ⟨ls, hd, hls⟩ := exists_derives_tower chain levels 1
  rw [towerText, hparse]
  refine Derives.ofTokens_eq_ok (hkinds.trans hcons.symm ▸ hd) (by decide) ⟨fun m hm => ?_, ?_⟩
  · have hm := hls m hm
    show m ≤ 256
    omega
  · exact chainsWithin_tower hchain levels

/-- With the longest chain and the most levels, the tower is as deep as a formula can be. -/
theorem shaped_of_parse_tower :
    parse (towerText 1023 255) = .ok (tower 1023 255) ∧ Shaped (tower 1023 255) ∧
      (tower 1023 255).depth = 1534 := by
  have parsed : parse (towerText 1023 255) = .ok (tower 1023 255) :=
    parse_towerText (by decide) (by decide)
  exact ⟨parsed, shaped_of_parse parsed, depth_tower 1023 255⟩

end Expr

end CurvePlot
