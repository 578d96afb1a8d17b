import CurvePlot.Expr.Text
import CurvePlot.Proofs.Decimal.Positional
import CurvePlot.Proofs.Token.Spelling

/-!
# The tokens of a formula that was written down

The text of a formula is scanned into the tokens one would expect (`spells_chars`), for every
tree, also for one with numbers that are not finite: those are written as words, and the words
are scanned as names.
-/

namespace CurvePlot

open Token (Kind Ends Spells)

/-! ### Numbers -/

namespace Number

/-- The token of the absolute value of a double that is not a NaN. -/
def unsignedKind (v : Float) : Kind :=
  if v.isFinite then .number v.abs else .name "inf"

/-- The tokens of a double. -/
def kinds (v : Float) : List Kind :=
  if v.isNaN then
    [.name "NaN"]
  else if Binary64.signBit v then
    [.minus, unsignedKind v]
  else
    [unsignedKind v]

/-- A positional text is made of digits and a point, which all may stand in a number. -/
theorem isNumeral_of_mem_positional {d : Decimal} {c : Char} (h : c ∈ d.positional) :
    Token.isNumeral c = true := by
  rcases d.laidOutAs_positional.isDigit_or h with digit | rfl
  · simp [Token.isNumeral, digit]
  · rfl

theorem spells_unsignedText (v : Float) {rest : List Char} (ends : Ends rest) :
    Spells (unsignedText v) [unsignedKind v] rest := by
  cases finite : v.isFinite with
  | true =>
    have text : unsignedText v = (Decimal.ofFloat .up v).positional := by
      rw [unsignedText, if_pos finite]
    rw [unsignedKind, if_pos finite]
    refine .number ?_ (fun c hc => ?_) (numberValue?_unsignedText finite) ends
    · rw [text]
      exact (Decimal.laidOutAs_positional _).ne_nil
    · rw [text] at hc
      exact isNumeral_of_mem_positional hc
  | false =>
    rw [unsignedText, unsignedKind, finite]
    exact .name rfl ends

theorem spells_text (v : Float) {rest : List Char} (ends : Ends rest) :
    Spells (text v) (kinds v) rest := by
  unfold text kinds
  split
  · exact .name rfl ends
  · split
    · exact (Spells.symbol (c := '-') rfl _).append (spells_unsignedText v ends)
    · exact spells_unsignedText v ends

end Number

/-! ### Formulas -/

/-- The token of an operator. -/
def BinaryOp.kind : BinaryOp → Kind
  | add => .plus
  | sub => .minus
  | mul => .star
  | div => .slash
  | pow => .caret
  | call f => .name f.name

namespace Expr

/-- The **tokens of a formula** that was written down. -/
def kinds : Expr → List Kind
  | const value =>
    if Binary64.signBit value then
      .lparen :: (Number.kinds value ++ [.rparen])
    else
      Number.kinds value
  | var => [.name Builtin.variableName]
  | named c => [.name c.name]
  | unary .neg a => .lparen :: .minus :: (a.kinds ++ [.rparen])
  | unary (.call f) a => .name f.name :: .lparen :: (a.kinds ++ [.rparen])
  | binary (.call f) a b =>
    .name f.name :: .lparen :: (a.kinds ++ .comma :: (b.kinds ++ [.rparen]))
  | binary op a b => .lparen :: (a.kinds ++ op.kind :: (b.kinds ++ [.rparen]))

theorem isName_name (b : Builtin) : Token.isName b.name.toList = true := by
  rcases b with _ | c | f
  · rfl
  · cases c <;> rfl
  · rcases f with f | f <;> cases f <;> rfl

theorem spells_name (b : Builtin) {rest : List Char} (ends : Ends rest) :
    Spells b.name.toList [.name b.name] rest := by
  have h := Spells.name (isName_name b) ends
  rwa [String.ofList_toList] at h

/-- Parentheses around a text. -/
theorem spells_group {cs rest : List Char} {ks : List Kind}
    (inside : Spells cs ks (')' :: rest)) :
    Spells ('(' :: (cs ++ [')'])) (.lparen :: (ks ++ [.rparen])) rest :=
  (Spells.symbol (c := '(') rfl _).append <| inside.append (.symbol (c := ')') rfl rest)

/-- An operation in parentheses. -/
theorem spells_binary {a b : Expr} {c : Char} {k : Kind} (hc : Kind.ofChar? c = some k)
    (ha : ∀ {rest}, Ends rest → Spells a.chars a.kinds rest)
    (hb : ∀ {rest}, Ends rest → Spells b.chars b.kinds rest) (rest : List Char) :
    Spells ('(' :: (a.chars ++ ' ' :: c :: ' ' :: (b.chars ++ [')'])))
      (.lparen :: (a.kinds ++ k :: (b.kinds ++ [.rparen]))) rest := by
  have right : Spells (' ' :: (b.chars ++ [')'])) (b.kinds ++ [.rparen]) rest :=
    .space <| (hb (.cons ⟨rfl, rfl⟩ _)).append (.symbol rfl rest)
  have operator : Spells (' ' :: c :: ' ' :: (b.chars ++ [')']))
      (k :: (b.kinds ++ [.rparen])) rest :=
    .space <| (Spells.symbol hc _).append right
  exact (Spells.symbol (c := '(') rfl _).append <| (ha (.cons ⟨rfl, rfl⟩ _)).append operator

/-- **The text of a formula** is scanned into its tokens, whatever comes after it. -/
theorem spells_chars (t : Expr) {rest : List Char} (ends : Ends rest) :
    Spells t.chars t.kinds rest := by
  induction t generalizing rest with
  | const value =>
    unfold chars kinds
    split
    · exact spells_group (Number.spells_text value (.cons ⟨rfl, rfl⟩ _))
    · exact Number.spells_text value ends
  | var => exact spells_name .x ends
  | named c => exact spells_name (.constant c) ends
  | unary op a ih =>
    cases op with
    | neg =>
      have inside : Spells ('-' :: a.chars) (.minus :: a.kinds) (')' :: rest) :=
        (Spells.symbol (c := '-') rfl _).append (ih (.cons ⟨rfl, rfl⟩ _))
      exact spells_group inside
    | call f =>
      exact (spells_name (.callable (.unary f)) (.cons ⟨rfl, rfl⟩ _)).append <|
        spells_group (ih (.cons ⟨rfl, rfl⟩ _))
  | binary op a b iha ihb =>
    cases op with
    | add => exact spells_binary (c := '+') rfl iha ihb rest
    | sub => exact spells_binary (c := '-') rfl iha ihb rest
    | mul => exact spells_binary (c := '*') rfl iha ihb rest
    | div => exact spells_binary (c := '/') rfl iha ihb rest
    | pow => exact spells_binary (c := '^') rfl iha ihb rest
    | call f =>
      have second : Spells (' ' :: (b.chars ++ [')'])) (b.kinds ++ [.rparen]) rest :=
        .space <| (ihb (.cons ⟨rfl, rfl⟩ _)).append (.symbol rfl rest)
      have arguments : Spells (a.chars ++ ',' :: ' ' :: (b.chars ++ [')']))
          (a.kinds ++ .comma :: (b.kinds ++ [.rparen])) rest :=
        (iha (.cons ⟨rfl, rfl⟩ _)).append <| (Spells.symbol (c := ',') rfl _).append second
      exact (spells_name (.callable (.binary f)) (.cons ⟨rfl, rfl⟩ _)).append <|
        (Spells.symbol (c := '(') rfl _).append arguments

end Expr

end CurvePlot
