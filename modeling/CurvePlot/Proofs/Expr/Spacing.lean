import CurvePlot.Expr.Parser
import CurvePlot.Proofs.Failure
import CurvePlot.Proofs.Token.Spacing

/-!
# More space in a formula

The reader never looks at a column, it only hands columns on to its errors. So it commutes with
**moving columns** by any function: a step from a state with moved columns, at a token with a moved
column, gives the state that the step without them gives, with its columns moved, or its error with
the column moved (`step_moved`), and so does a run over all tokens (`run_moved`). Since more space
moves the tokens of a text and changes nothing else, it moves the columns of the error of a formula,
and the formula stays the same (`parse_text_of_scan`).
-/

namespace CurvePlot

/-- The same error, with its **column moved**. -/
def ParseError.relocate (f : Nat → Nat) : ParseError → ParseError
  | .unexpectedCharacter c column => .unexpectedCharacter c (f column)
  | .invalidNumber literal column => .invalidNumber literal (f column)
  | .unknownName name column => .unknownName name (f column)
  | .unexpectedToken found column expected => .unexpectedToken found (f column) expected
  | .unclosedParen column => .unclosedParen (f column)
  | .unmatchedParen column => .unmatchedParen (f column)
  | .missingCall name column => .missingCall name (f column)
  | .notCallable name column => .notCallable name (f column)
  | .empty => .empty
  | .unexpectedEnd => .unexpectedEnd
  | .argumentCount name expected got => .argumentCount name expected got
  | .tooDeep limit => .tooDeep limit

namespace Expr

/-- The same frame, with its column moved. -/
def Frame.relocate (f : Nat → Nat) : Frame → Frame
  | .group column => .group (f column)
  | .call g column arguments => .call g (f column) arguments
  | .sign negates => .sign negates
  | .power base => .power base
  | .product op left => .product op left
  | .sum op left => .sum op left

/-- The same state, with its columns moved. -/
def State.relocate (f : Nat → Nat) : State → State
  | .operand frames => .operand (frames.map (Frame.relocate f))
  | .callee frames g column => .callee (frames.map (Frame.relocate f)) g (f column)
  | .arguments frames g column => .arguments (frames.map (Frame.relocate f)) g (f column)
  | .complete frames e bare =>
    .complete (frames.map (Frame.relocate f)) e (bare.map fun b => (b.1, f b.2))

/-- What a computation gives, with the columns **moved** in a value by `move`, and in an error. -/
def moved {α : Type} (f : Nat → Nat) (move : α → α) (r : Except ParseError α) :
    Except ParseError α :=
  (r.map move).mapError (ParseError.relocate f)

section Moved

variable {α β : Type} {f : Nat → Nat} {move : α → α}

@[simp] theorem moved_ok (a : α) : moved f move (.ok a) = .ok (move a) := rfl

@[simp] theorem moved_error (cause : ParseError) :
    moved f move (.error cause) = .error (cause.relocate f) := rfl

/-- One computation after another commutes with moving if both of them do. -/
theorem moved_bind {move' : β → β} {r r' : Except ParseError α} {g g' : α → Except ParseError β}
    (hr : r' = moved f move r) (hg : ∀ a, g' (move a) = moved f move' (g a)) :
    (r' >>= g') = moved f move' (r >>= g) := by
  subst hr
  rcases r with cause | a
  · rfl
  · exact hg a

theorem moved_map {move' : β → β} {r r' : Except ParseError α} {g g' : α → β}
    (hr : r' = moved f move r) (hg : ∀ a, g' (move a) = move' (g a)) :
    g' <$> r' = moved f move' (g <$> r) := by
  subst hr
  rcases r with cause | a
  · rfl
  · exact congrArg Except.ok (hg a)

end Moved

/-! ### Frames -/

variable (f : Nat → Nat)

@[simp] theorem Frame.nests_relocate (frame : Frame) : (frame.relocate f).nests = frame.nests := by
  cases frame <;> rfl

@[simp] theorem Frame.isOpen_relocate (frame : Frame) :
    (frame.relocate f).isOpen = frame.isOpen := by
  cases frame <;> rfl

theorem level_map_relocate (frames : List Frame) :
    level (frames.map (Frame.relocate f)) = level frames := by
  have same : Frame.nests ∘ Frame.relocate f = Frame.nests := funext (Frame.nests_relocate f)
  rw [level, level, List.countP_map, same]

theorem any_isOpen_map_relocate (frames : List Frame) :
    (frames.map (Frame.relocate f)).any Frame.isOpen = frames.any Frame.isOpen := by
  have same : Frame.isOpen ∘ Frame.relocate f = Frame.isOpen := funext (Frame.isOpen_relocate f)
  rw [List.any_map, same]

variable (limits : Limits) (frames : List Frame)

theorem nest_moved (frame : Frame) :
    nest limits (frame.relocate f) (frames.map (Frame.relocate f)) =
      moved f (List.map (Frame.relocate f)) (nest limits frame frames) := by
  have same := level_map_relocate f (frame :: frames)
  rw [List.map_cons] at same
  rw [nest, nest, same]
  split <;> rfl

/-- Frames and an operand inside of them, with the columns of the frames moved. -/
def relocateOuter (closed : List Frame × Expr) : List Frame × Expr :=
  (closed.1.map (Frame.relocate f), closed.2)

theorem applySigns_moved (e : Expr) :
    applySigns (frames.map (Frame.relocate f)) e = relocateOuter f (applySigns frames e) := by
  induction frames generalizing e with
  | nil => rfl
  | cons frame outer ih =>
    rcases frame with (_ | _) | _ | _ | _ | _ | _
    · exact ih e
    · exact ih _
    all_goals rfl

theorem closePowers_moved (e : Expr) :
    closePowers (frames.map (Frame.relocate f)) e = relocateOuter f (closePowers frames e) := by
  induction frames generalizing e with
  | nil => rfl
  | cons frame outer ih =>
    rcases frame with _ | base | _ | _ | _ | _
    case power => exact ih _
    all_goals rfl

theorem finishOperand_moved (e : Expr) (bare : Option (String × Nat)) :
    finishOperand (frames.map (Frame.relocate f)) e (bare.map fun b => (b.1, f b.2)) =
      (finishOperand frames e bare).relocate f := by
  rw [finishOperand, applySigns_moved]
  rfl

theorem chain_moved (op : BinaryOp) (left right : Expr) :
    chain limits op left right = moved f id (chain limits op left right) := by
  rw [chain]
  split <;> rfl

theorem closeProduct_moved (e : Expr) :
    closeProduct limits (frames.map (Frame.relocate f)) e =
      moved f (relocateOuter f) (closeProduct limits frames e) := by
  rw [closeProduct, closeProduct, closePowers_moved]
  rcases closePowers frames e with ⟨_ | ⟨frame, outer⟩, right⟩
  · rfl
  · cases frame with
    | product op left => exact moved_bind (chain_moved f limits op left right) fun _ => rfl
    | _ => rfl

theorem closeSum_moved (e : Expr) :
    closeSum limits (frames.map (Frame.relocate f)) e =
      moved f (relocateOuter f) (closeSum limits frames e) := by
  refine moved_bind (closeProduct_moved f limits frames e) fun closed => ?_
  rcases closed with ⟨_ | ⟨frame, outer⟩, right⟩
  · rfl
  · cases frame with
    | sum op left => exact moved_bind (chain_moved f limits op left right) fun _ => rfl
    | _ => rfl

theorem finishCall_moved (g : Callable) (arguments : List Expr) :
    finishCall (frames.map (Frame.relocate f)) g arguments =
      moved f (State.relocate f) (finishCall frames g arguments) := by
  rcases g with g | g <;> rcases arguments with _ | ⟨a, _ | ⟨b, _ | ⟨c, more⟩⟩⟩
  all_goals first | rfl | exact congrArg Except.ok (finishOperand_moved f frames _ none)

/-! ### One token, and all of them -/

variable (t : Token)

theorem readOperand_moved :
    readOperand limits (frames.map (Frame.relocate f)) (t.relocate f) =
      moved f (State.relocate f) (readOperand limits frames t) := by
  have nested (frame : Frame) :
      State.operand <$> nest limits (frame.relocate f) (frames.map (Frame.relocate f)) =
        moved f (State.relocate f) (State.operand <$> nest limits frame frames) :=
    moved_map (nest_moved f limits frames frame) fun _ => rfl
  obtain ⟨kind, column⟩ := t
  cases kind with
  | number value => exact congrArg Except.ok (finishOperand_moved f frames _ none)
  | minus => exact nested (.sign true)
  | plus => exact nested (.sign false)
  | lparen => exact nested (.group column)
  | name letters =>
    simp only [readOperand, Token.relocate]
    rcases Builtin.ofName? letters with _ | _ | c | g
    · rfl
    · exact congrArg Except.ok (finishOperand_moved f frames .var (some (letters, column)))
    · exact congrArg Except.ok (finishOperand_moved f frames (.named c) (some (letters, column)))
    · rfl
  | rparen =>
    simp only [readOperand, Token.relocate, any_isOpen_map_relocate]
    split <;> rfl
  | _ => rfl

theorem readCloser_moved (e : Expr) :
    readCloser (frames.map (Frame.relocate f)) e (t.relocate f) =
      moved f (State.relocate f) (readCloser frames e t) := by
  obtain ⟨kind, column⟩ := t
  rcases frames with _ | ⟨frame, outer⟩
  · cases kind <;> rfl
  · cases frame with
    | group _ =>
      cases kind with
      | rparen => exact congrArg Except.ok (finishOperand_moved f outer e none)
      | _ => rfl
    | call g _ arguments =>
      cases kind with
      | rparen => exact finishCall_moved f outer g (arguments ++ [e])
      | _ => rfl
    | _ => cases kind <;> rfl

theorem readOperator_moved (e : Expr) :
    readOperator limits (frames.map (Frame.relocate f)) e (t.relocate f) =
      moved f (State.relocate f) (readOperator limits frames e t) := by
  have product := closeProduct_moved f limits frames e
  have sum := closeSum_moved f limits frames e
  obtain ⟨kind, column⟩ := t
  cases kind with
  | caret => exact moved_map (nest_moved f limits frames (.power e)) fun _ => rfl
  | star | slash => exact moved_bind product fun _ => rfl
  | plus | minus => exact moved_bind sum fun _ => rfl
  | _ => exact moved_bind sum fun closed => readCloser_moved f closed.1 ⟨_, column⟩ closed.2

/-- **One step commutes with moving columns.** -/
theorem step_moved (s : State) :
    (s.relocate f).step limits (t.relocate f) =
      moved f (State.relocate f) (s.step limits t) := by
  cases s with
  | operand frames => exact readOperand_moved f limits frames t
  | callee frames g column =>
    obtain ⟨kind, column'⟩ := t
    cases kind <;> rfl
  | arguments frames g column =>
    have nested := nest_moved f limits frames (.call g column [])
    obtain ⟨kind, column'⟩ := t
    cases kind with
    | rparen => exact finishCall_moved f frames g []
    | _ => exact moved_bind nested fun inner => readOperand_moved f limits inner ⟨_, column'⟩
  | complete frames e bare =>
    have operator := readOperator_moved f limits frames t e
    obtain ⟨kind, column⟩ := t
    rcases bare with _ | ⟨name, column'⟩
    · exact operator
    · cases kind with
      | lparen => rfl
      | _ => exact operator

/-- So does a **run**. -/
theorem run_moved (s : State) (tokens : List Token) :
    (s.relocate f).run limits (tokens.map (Token.relocate f)) =
      moved f (State.relocate f) (s.run limits tokens) := by
  induction tokens generalizing s with
  | nil => rfl
  | cons t tokens ih => exact moved_bind (step_moved f limits t s) ih

/-- And so does what is left to do at the end. -/
theorem finish_moved (s : State) :
    (s.relocate f).finish limits = moved f id (s.finish limits) := by
  cases s with
  | operand _ => rfl
  | callee _ _ _ => rfl
  | arguments frames g column =>
    exact moved_bind (nest_moved f limits frames (.call g column [])) fun _ => rfl
  | complete frames e bare =>
    refine moved_bind (closeSum_moved f limits frames e) fun closed => ?_
    rcases closed with ⟨_ | ⟨frame, outer⟩, whole⟩
    · rfl
    · cases frame <;> rfl

theorem ofTokensWithin_moved (tokens : List Token) :
    ofTokensWithin limits (tokens.map (Token.relocate f)) =
      (ofTokensWithin limits tokens).mapError (ParseError.relocate f) := by
  have whole := moved_bind (run_moved f limits .start tokens) (finish_moved f limits)
  rw [show State.start.relocate f = .start from rfl] at whole
  rw [ofTokensWithin, whole, moved, Except.map_id]
  rfl

/-! ### Formulas with more space -/

/-- **Spacing does not matter.** Whatever separators are put into a formula that has tokens, but inside
of none of its lexemes, it has the same tokens, at the columns that they are moved to. It spells the
same tree, or it is refused for the same cause, with its column moved in the same way. -/
theorem parse_text_of_scan {source : String} {tokens : List Token}
    (scanned : Token.scan source = .ok tokens) (s : Token.Spacing source) :
    Token.scan s.text = .ok (tokens.map (Token.relocate s.column)) ∧
      parse s.text = (parse source).mapError (ParseError.relocate s.column) := by
  have spread := Token.scan_text_of_scan s scanned
  refine ⟨spread, ?_⟩
  rw [parse, parse, spread, scanned, ok_bind, ok_bind, List.isEmpty_map]
  split
  · rfl
  · exact ofTokensWithin_moved s.column .standard tokens

/-- A space behind the `2` of `2e+x` moves what is wrong with it. -/
theorem parse_text_of_scan_mark :
    ∃ s : Token.Spacing "2e+x", s.text = "2 \te+x" ∧
      parse "2e+x" = .error (.unexpectedToken (.name "e") 2 .operatorOrEnd) ∧
      parse s.text = .error (.unexpectedToken (.name "e") 4 .operatorOrEnd) := by
  have number : Token.Cut "2e+x".toList ['2'] [⟨.number 2, 1⟩] ['e', '+', 'x'] := by
    have hc : Token.isNumeral '2' = true := by decide
    obtain ⟨m, power, hnumber⟩ := Token.exists_isNumber_take hc ['e', '+', 'x']
    have longest := Token.isLongest_number hc ['e', '+', 'x']
    have value : Token.numberValue? ['2'] = some 2 := by decide +kernel
    exact Token.Cut.start.lexeme (l := ['2']) longest (Token.denotes_of_numberValue? hnumber value)
  have scanned : Token.scan "2e+x" =
      .ok [⟨.number 2, 1⟩, ⟨.name "e", 2⟩, ⟨.plus, 3⟩, ⟨.name "x", 4⟩] := by
    decide +kernel
  have refused : parse "2e+x" = .error (.unexpectedToken (.name "e") 2 .operatorOrEnd) := by
    decide +kernel
  have blanks : ∀ c ∈ [' ', '\t'], c ∈ Token.separators :=
    List.forall_mem_cons.mpr ⟨by decide, List.forall_mem_singleton.mpr (by decide)⟩
  let s := Token.Spacing.single number [' ', '\t'] blanks
  refine ⟨s, rfl, refused, ?_⟩
  rw [(parse_text_of_scan scanned s).2, refused]
  rfl

end Expr

end CurvePlot
