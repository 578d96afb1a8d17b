import CurvePlot.Proofs.Expr.Causes
import CurvePlot.Proofs.Token.Cutting

/-!
# Errors point at what they talk about

A parse error may carry a column, a character, a name, a literal, a token or a number of arguments.
All of it is **true of the source** (`ParseError.TrueOf`): at the column stands what the error
talks about, as one whole lexeme, and what the error says of it holds. There are two parts to this.
The reader's causes are true of the tokens (`explains_ofTokensWithin`), and every token stands in
the source where its column says, since the scanner follows a cut of the source
(`Token.Cut.exists_lexeme_of_mem`).
-/

namespace CurvePlot

open Token (Kind Cut IsLongest Denotes)

/-- A text is one whole lexeme of a source, and begins at a column: when the source is cut from its
beginning, the text is the longest lexeme that is cut off there. -/
def Token.LexemeAt (source : String) (column : Nat) (l : List Char) : Prop :=
  ∃ done found rest, Cut source.toList done found (l ++ rest) ∧ IsLongest l rest ∧
    column = done.length + 1

namespace ParseError

open CurvePlot.Expr (HasCall NotCalledAt CalledAt IsValueName)

/-- The column that an error points at. -/
def column? : ParseError → Option Nat
  | unexpectedCharacter _ column => some column
  | invalidNumber _ column => some column
  | unknownName _ column => some column
  | unexpectedToken _ column _ => some column
  | unclosedParen column => some column
  | unmatchedParen column => some column
  | missingCall _ column => some column
  | notCallable _ column => some column
  | empty | unexpectedEnd | argumentCount _ _ _ | tooDeep _ => none

/-- What an error says is **true of the source**. A token that is reported is the one that its
lexeme denotes, so the text that the message quotes is the text of that token. -/
def TrueOf (source : String) : ParseError → Prop
  | empty => Token.scan source = .ok []
  | unexpectedCharacter c column => source.toList[column - 1]? = some c
  | invalidNumber literal column =>
    Token.LexemeAt source column literal.toList ∧ ∀ k, ¬Denotes literal.toList k
  | unknownName name column =>
    Token.LexemeAt source column name.toList ∧ Builtin.ofName? name = none
  | unexpectedToken found column _ => ∃ l, Token.LexemeAt source column l ∧ Denotes l found
  | unexpectedEnd => True
  | unclosedParen column => Token.LexemeAt source column ['(']
  | unmatchedParen column => Token.LexemeAt source column [')']
  | argumentCount name expected got =>
    (∃ f : Callable, Builtin.ofName? name = some (.callable f) ∧ f.arity = expected) ∧
      got ≠ expected ∧
      ∃ tokens, Token.scan source = .ok tokens ∧ HasCall (tokens.map Token.kind) name got
  | missingCall name column =>
    Token.LexemeAt source column name.toList ∧
      (∃ f, Builtin.ofName? name = some (.callable f)) ∧
      ∃ tokens, Token.scan source = .ok tokens ∧ NotCalledAt tokens name column
  | notCallable name column =>
    Token.LexemeAt source column name.toList ∧ IsValueName name ∧
      ∃ tokens, Token.scan source = .ok tokens ∧ CalledAt tokens name column
  | tooDeep limit =>
    limit = Expr.Limits.standard.nesting ∨ limit = Expr.Limits.standard.depth

end ParseError

namespace Token

/-! ### Lexemes in a source -/

/-- A lexeme of a source is spelled by it, from its column on. -/
theorem LexemeAt.prefix_drop {source : String} {column : Nat} {l : List Char}
    (h : LexemeAt source column l) : 1 ≤ column ∧ l <+: source.toList.drop (column - 1) := by
  obtain ⟨done, found, rest, hcut, -, rfl⟩ := h
  rw [← hcut.append_eq, Nat.add_sub_cancel, List.drop_left]
  exact ⟨Nat.succ_pos _, List.prefix_append l rest⟩

/-- A lexeme of a source begins within it. -/
theorem LexemeAt.column_le {source : String} {column : Nat} {l : List Char}
    (h : LexemeAt source column l) : 1 ≤ column ∧ column ≤ source.length := by
  have nonempty : l ≠ [] := by
    obtain ⟨_, _, _, _, longest, -⟩ := h
    obtain ⟨c, more, rfl, -⟩ := longest.isLexeme.cases_head
    exact List.cons_ne_nil c more
  obtain ⟨pos, spelled⟩ := h.prefix_drop
  have length := spelled.length_le
  have := List.length_pos_iff.mpr nonempty
  rw [List.length_drop, String.length_toList] at length
  omega

/-- Every token of a source is that of a whole lexeme at its column. -/
theorem lexemeAt_of_mem {source : String} {tokens : List Token} (h : scan source = .ok tokens)
    {k : Kind} {column : Nat} (ht : ⟨k, column⟩ ∈ tokens) :
    ∃ l, LexemeAt source column l ∧ Denotes l k := by
  obtain ⟨done, found, l, rest, hcut, longest, hk, hcolumn⟩ := (cut_of_scan h).exists_lexeme_of_mem ht
  exact ⟨l, ⟨done, found, rest, hcut, longest, hcolumn⟩, hk⟩

theorem toList_of_denotes_name {l : List Char} {letters : String}
    (h : Denotes l (.name letters)) : l = letters.toList := by
  cases h with
  | symbol h => simp [symbols] at h
  | name => exact (String.toList_ofList).symm

theorem eq_of_denotes_lparen {l : List Char} (h : Denotes l .lparen) : l = ['('] := by
  cases h with
  | symbol h => simpa [symbols] using h

theorem eq_of_denotes_rparen {l : List Char} (h : Denotes l .rparen) : l = [')'] := by
  cases h with
  | symbol h => simpa [symbols] using h

theorem lexemeAt_of_name_mem {source : String} {tokens : List Token}
    (h : scan source = .ok tokens) {name : String} {column : Nat}
    (ht : ⟨.name name, column⟩ ∈ tokens) : LexemeAt source column name.toList := by
  obtain ⟨l, hl, hk⟩ := lexemeAt_of_mem h ht
  exact toList_of_denotes_name hk ▸ hl

theorem lexemeAt_of_lparen_mem {source : String} {tokens : List Token}
    (h : scan source = .ok tokens) {column : Nat} (ht : ⟨.lparen, column⟩ ∈ tokens) :
    LexemeAt source column ['('] := by
  obtain ⟨l, hl, hk⟩ := lexemeAt_of_mem h ht
  exact eq_of_denotes_lparen hk ▸ hl

/-- **A scanner's error** is true of the source, and points into it. -/
theorem trueOf_of_scan {source : String} {cause : ParseError} (h : scan source = .error cause) :
    cause.TrueOf source ∧
      ∀ column ∈ cause.column?, 1 ≤ column ∧ column ≤ source.length := by
  obtain ⟨done, tokens, rest, hcut, hstuck⟩ := exists_stuck_of_scan h
  cases hstuck with
  | @number c more rest _ longest senseless =>
    have hl : LexemeAt source (done.length + 1) (c :: more) :=
      ⟨done, tokens, rest, hcut, longest, rfl⟩
    refine ⟨⟨?_, ?_⟩, ?_⟩
    · rwa [String.toList_ofList]
    · rwa [String.toList_ofList]
    · rintro _ ⟨⟩
      exact hl.column_le
  | @character c rest =>
    have whole := hcut.append_eq
    refine ⟨?_, ?_⟩
    · rw [ParseError.TrueOf, ← whole, Nat.add_sub_cancel, List.getElem?_append_right (Nat.le_refl _),
        Nat.sub_self]
      rfl
    · rintro _ ⟨⟩
      have length := congrArg List.length whole
      rw [List.length_append, List.length_cons, String.length_toList] at length
      omega

end Token

namespace Expr

/-- What is true of the tokens of a source is true of the source. -/
theorem trueOf_of_explains {source : String} {tokens : List Token}
    (hscan : Token.scan source = .ok tokens) {cause : ParseError}
    (h : Explains .standard tokens cause) : cause.TrueOf source := by
  cases cause with
  | empty | unexpectedCharacter | invalidNumber => exact h.elim
  | unknownName name column => exact ⟨Token.lexemeAt_of_name_mem hscan h.1, h.2⟩
  | unexpectedToken found column expected => exact Token.lexemeAt_of_mem hscan h
  | unexpectedEnd => trivial
  | unclosedParen column =>
    exact Token.lexemeAt_of_lparen_mem hscan h
  | unmatchedParen column =>
    obtain ⟨l, hl, hk⟩ := Token.lexemeAt_of_mem hscan h
    rwa [Token.eq_of_denotes_rparen hk] at hl
  | argumentCount name expected got =>
    obtain ⟨hname, count, call⟩ := h
    exact ⟨hname, count, tokens, hscan, call⟩
  | missingCall name column =>
    obtain ⟨hname, call⟩ := h
    refine ⟨Token.lexemeAt_of_name_mem hscan ?_, hname, tokens, hscan, call⟩
    obtain ⟨before, after, rfl, -⟩ := call
    exact List.mem_append_right _ List.mem_cons_self
  | notCallable name column =>
    obtain ⟨value, call⟩ := h
    refine ⟨Token.lexemeAt_of_name_mem hscan ?_, value, tokens, hscan, call⟩
    obtain ⟨before, opening, after, rfl⟩ := call
    exact List.mem_append_right _ List.mem_cons_self
  | tooDeep limit => exact h

/-- A formula that is refused was refused by the scanner, or has no tokens, or its tokens were
refused by the reader. -/
theorem eq_error_of_parse {source : String} {cause : ParseError} (h : parse source = .error cause) :
    Token.scan source = .error cause ∨ (Token.scan source = .ok [] ∧ cause = .empty) ∨
      ∃ tokens, Token.scan source = .ok tokens ∧ ofTokens tokens = .error cause := by
  rcases hscan : Token.scan source with cause' | tokens
  · rw [parse, hscan] at h
    exact .inl (congrArg Except.error (Except.error.inj h))
  · rw [parse, hscan] at h
    rcases tokens with _ | ⟨t, tokens⟩
    · exact .inr (.inl ⟨rfl, (Except.error.inj h).symm⟩)
    · exact .inr (.inr ⟨t :: tokens, rfl, h⟩)

end Expr

namespace ParseError

/-- An error that is true of a source, and has its column from a lexeme, points into the source. -/
theorem TrueOf.column_le {source : String} {cause : ParseError} (h : cause.TrueOf source)
    (hchar : ∀ c column, cause ≠ unexpectedCharacter c column) :
    ∀ column ∈ cause.column?, 1 ≤ column ∧ column ≤ source.length := by
  cases cause with
  | unexpectedCharacter c column => exact absurd rfl (hchar c column)
  | invalidNumber | unknownName | missingCall | notCallable =>
    rintro _ ⟨⟩
    exact h.1.column_le
  | unexpectedToken found column expected =>
    rintro _ ⟨⟩
    obtain ⟨l, hl, -⟩ := h
    exact hl.column_le
  | unclosedParen | unmatchedParen =>
    rintro _ ⟨⟩
    exact Token.LexemeAt.column_le h
  | empty | unexpectedEnd | argumentCount | tooDeep => rintro _ ⟨⟩

end ParseError

namespace Expr

/-- A name that has a number of arguments is that of a function, and the reader goes on to call
it. -/
theorem readOperand_of_arity? {name : String} {b : Builtin} {n : Nat}
    (hname : Builtin.ofName? name = some b) (hn : b.arity? = some n) :
    ∃ f : Callable, b = .callable f ∧ f.arity = n ∧ ∀ limits frames column,
      readOperand limits frames ⟨.name name, column⟩ = .ok (.callee frames f column) := by
  cases b with
  | x | constant => cases hn
  | callable f =>
    refine ⟨f, rfl, Option.some.inj hn, fun limits frames column => ?_⟩
    simp only [readOperand, hname]

/-- **Every parse error points at what it talks about**: what it says is true of the source, and its
column is that of a character of the source, whatever the source is.

No column is made up: in every state that the reader comes to, the column of a group or a call that
is not closed is that of an opening parenthesis of the source. And nothing but a function is ever
called, since only functions have a number of arguments. -/
theorem parse_errors_true (source : String) :
    (∀ cause, parse source = .error cause →
      cause.TrueOf source ∧ ∀ column ∈ cause.column?, 1 ≤ column ∧ column ≤ source.length) ∧
    (∀ tokens done s, Token.scan source = .ok tokens → done <+: tokens →
      State.start.run .standard done = .ok s →
      ∀ column ∈ s.openColumns, Token.LexemeAt source column ['(']) ∧
    ∀ name b n, Builtin.ofName? name = some b → b.arity? = some n →
      ∃ f : Callable, b = .callable f ∧ f.arity = n ∧ ∀ limits frames column,
        readOperand limits frames ⟨.name name, column⟩ = .ok (.callee frames f column) := by
  refine ⟨fun cause h => ?_, fun tokens done s hscan part hrun column hcolumn => ?_,
    fun name b n => readOperand_of_arity?⟩
  · rcases eq_error_of_parse h with hscan | ⟨hscan, rfl⟩ | ⟨tokens, hscan, hread⟩
    · exact Token.trueOf_of_scan hscan
    · refine ⟨hscan, ?_⟩
      rintro _ ⟨⟩
    · have explained := explains_ofTokensWithin tokens cause hread
      have said := trueOf_of_explains hscan explained
      refine ⟨said, said.column_le ?_⟩
      rintro c column rfl
      exact explained
  · rw [openColumns_of_run_start hrun] at hcolumn
    exact Token.lexemeAt_of_lparen_mem hscan (part.subset (mem_openParens hcolumn))

/-- A constant that is called is pointed at by the column of its name. -/
theorem parse_errors_true_called_constant :
    parse "2 * (3 + pi(x))" = .error (.notCallable "pi" 10) ∧
      (ParseError.notCallable "pi" 10).TrueOf "2 * (3 + pi(x))" ∧
      10 ≤ "2 * (3 + pi(x))".length := by
  have refused : parse "2 * (3 + pi(x))" = .error (.notCallable "pi" 10) := by
    decide +kernel
  obtain ⟨said, within⟩ := (parse_errors_true "2 * (3 + pi(x))").1 _ refused
  exact ⟨refused, said, (within 10 rfl).2⟩

end Expr

end CurvePlot
