import CurvePlot.Json.Lexeme

/-!
# Cutting a JSON text into lexemes

Blanks are spaces, tabs, line feeds and carriage returns. Words and numbers end where their
characters end; a number has no leading zeros, and a digit on each side of its point. A
string ends at the next quote that is not escaped; an escaped surrogate has to be followed by
its other half.
-/

namespace CurvePlot.Json

namespace Lexeme

/-- Whether a character may stand between two lexemes. -/
def isBlank (c : Char) : Bool :=
  c = ' ' || c = '\t' || c = '\n' || c = '\r'

/-! ### Words -/

/-- Match the remaining letters of a word. -/
def wordRest (found : Lexeme) : List Char → List Char → Lexeme × List Char
  | [], cs => (found, cs)
  | _ :: _, [] => (.badWord true, [])
  | letter :: letters, c :: cs =>
    if c = letter then wordRest found letters cs else (.badWord false, [])

/-! ### Numbers -/

/-- Whether the sign at the head of a text is a minus, and what follows the sign. -/
def signAt : List Char → Bool × List Char
  | '+' :: rest => (false, rest)
  | '-' :: rest => (true, rest)
  | rest => (false, rest)

/-- The exponent at the head of a text, after its mark. -/
def exponentAt (cs : List Char) : Except Bool (Int × List Char) :=
  let (negative, digits) := signAt cs
  match digits with
  | [] => .error true
  | c :: _ =>
    if c.isDigit then
      let size : Int := Decimal.ofDigits (digits.takeWhile Char.isDigit)
      .ok (if negative then -size else size, digits.dropWhile Char.isDigit)
    else
      .error false

/-- The exponent at the head of a text, if there is a mark for one. -/
def exponentPart : List Char → Except Bool (Option Int × List Char)
  | c :: rest =>
    if c = 'e' ∨ c = 'E' then
      (exponentAt rest).map fun (e, after) => (some e, after)
    else
      .ok (none, c :: rest)
  | [] => .ok (none, [])

/-- The digits after a point at the head of a text, if there is a point. -/
def fractionPart : List Char → Except Bool (Option (List Char) × List Char)
  | '.' :: rest =>
    let run := rest.takeWhile Char.isDigit
    let after := rest.dropWhile Char.isDigit
    if run = [] then .error after.isEmpty else .ok (some run, after)
  | rest => .ok (none, rest)

/-- The digits before the point: a zero on its own, or digits that begin with none. -/
def wholePart : List Char → Except Bool (List Char × List Char)
  | '0' :: rest =>
    match rest with
    | c :: _ => if c.isDigit then .error false else .ok (['0'], rest)
    | [] => .ok (['0'], [])
  | c :: rest =>
    if c.isDigit then
      .ok (c :: rest.takeWhile Char.isDigit, rest.dropWhile Char.isDigit)
    else
      .error false
  | [] => .error true

/-- The parts of the number at the head of a text, after its sign, and what follows it. An
error says whether the text ended. -/
def numeralAt (negative : Bool) (cs : List Char) : Except Bool (Numeral × List Char) := do
  let (whole, afterWhole) ← wholePart cs
  let (fraction, afterFraction) ← fractionPart afterWhole
  let (exponent, rest) ← exponentPart afterFraction
  return (⟨negative, whole, fraction, exponent⟩, rest)

/-- The number at the head of a text, after its sign, and what follows it. -/
def numberAt (negative : Bool) (cs : List Char) : Lexeme × List Char :=
  match numeralAt negative cs with
  | .ok (numeral, rest) => (.number numeral.value?, rest)
  | .error cutOff => (.badNumber cutOff, [])

/-! ### Strings -/

/-- The value of a hexadecimal digit. -/
def hexValue? (c : Char) : Option Nat :=
  if '0' ≤ c ∧ c ≤ '9' then some (c.toNat - '0'.toNat)
  else if 'a' ≤ c ∧ c ≤ 'f' then some (c.toNat - 'a'.toNat + 10)
  else if 'A' ≤ c ∧ c ≤ 'F' then some (c.toNat - 'A'.toNat + 10)
  else none

/-- The value of the four hexadecimal digits at the head of a text. A text that has fewer
than four bytes left is cut off, whatever it holds. -/
def hexQuad (cs : List Char) : Except Problem Nat :=
  match cs with
  | a :: b :: c :: d :: _ =>
    match hexValue? a, hexValue? b, hexValue? c, hexValue? d with
    | some a, some b, some c, some d => .ok (((a * 16 + b) * 16 + c) * 16 + d)
    | _, _, _, _ => .error .malformed
  | few =>
    if (String.ofList few).utf8ByteSize < 4 then .error .truncated else .error .malformed

/-- Whether a 16-bit unit is the first half of a surrogate pair. -/
def isHighSurrogate (n : Nat) : Bool :=
  0xD800 ≤ n && n ≤ 0xDBFF

/-- Whether a 16-bit unit is the second half of a surrogate pair. -/
def isLowSurrogate (n : Nat) : Bool :=
  0xDC00 ≤ n && n ≤ 0xDFFF

/-- The second half of a surrogate pair, which has to be escaped at the head of a text. -/
def lowSurrogateAt : List Char → Except Problem Nat
  | [] => .error .truncated
  | '\\' :: [] => .error .truncated
  | '\\' :: 'u' :: rest => do
    let n ← hexQuad rest
    if isLowSurrogate n then return n else .error .malformed
  | _ => .error .malformed

/-- The character of a surrogate pair. -/
def joinSurrogates (high low : Nat) : Char :=
  Char.ofNat ((high - 0xD800) * 0x400 + (low - 0xDC00) + 0x10000)

/-- The character that a backslash and a letter stand for. -/
def escaped? : Char → Option Char
  | '"' => some '"'
  | '\\' => some '\\'
  | '/' => some '/'
  | 'b' => some '\x08'
  | 'f' => some '\x0c'
  | 'n' => some '\n'
  | 'r' => some '\r'
  | 't' => some '\t'
  | _ => none

/-- The string that has been read up to its closing quote. -/
def closeString (text : List Char) : Option Problem → Lexeme
  | none => .string (String.ofList text.reverse)
  | some problem => .badString problem none

/-- A string that breaks for good. -/
def breakString (problem : Problem) (earlier : Option Problem) : Lexeme :=
  .badString (earlier.getD problem) (some problem)

/-- The string at the head of a text, after its opening quote, and what follows it. `text` is
what has been read of it, latest first, and `broken` the first problem for whoever wants it,
if there was one. -/
def stringAt (text : List Char) (broken : Option Problem) : List Char → Lexeme × List Char
  | [] => (breakString .truncated broken, [])
  | '"' :: rest => (closeString text broken, rest)
  | '\\' :: [] => (breakString .truncated broken, [])
  | '\\' :: 'u' :: rest =>
    match hexQuad rest with
    | .error problem => (breakString problem broken, [])
    | .ok n =>
      let after := rest.drop 4
      if isLowSurrogate n then
        stringAt text (broken.or (some .malformed)) after
      else if isHighSurrogate n then
        match lowSurrogateAt after with
        | .ok low => stringAt (joinSurrogates n low :: text) broken (after.drop 6)
        | .error problem => stringAt text (broken.or (some problem)) after
      else
        stringAt (Char.ofNat n :: text) broken after
  | '\\' :: c :: rest =>
    match escaped? c with
    | some plain => stringAt (plain :: text) broken rest
    | none => (breakString .malformed broken, [])
  | c :: rest =>
    if c.toNat < 0x20 then
      (breakString .malformed broken, [])
    else
      stringAt (c :: text) broken rest
termination_by cs => cs.length
decreasing_by all_goals (simp only [List.length_drop, List.length_cons]; omega)

/-! ### Texts -/

/-- The lexeme at the head of the text `c :: rest`, and what follows it. -/
def lexemeAt (c : Char) (rest : List Char) : Lexeme × List Char :=
  match c with
  | '\x7b' => (.openObject, rest)
  | '\x7d' => (.closeObject, rest)
  | '[' => (.openArray, rest)
  | ']' => (.closeArray, rest)
  | ':' => (.colon, rest)
  | ',' => (.comma, rest)
  | 'n' => wordRest .null ['u', 'l', 'l'] rest
  | 't' => wordRest (.bool true) ['r', 'u', 'e'] rest
  | 'f' => wordRest (.bool false) ['a', 'l', 's', 'e'] rest
  | '"' => stringAt [] none rest
  | '-' => numberAt true rest
  | c => if c.isDigit then numberAt false (c :: rest) else (.junk, [])

/-! ### The rest is shorter -/

theorem length_wordRest_le (found : Lexeme) (letters cs : List Char) :
    (wordRest found letters cs).2.length ≤ cs.length := by
  induction letters generalizing cs with
  | nil => simp [wordRest]
  | cons letter letters ih =>
    cases cs with
    | nil => simp [wordRest]
    | cons c cs =>
      simp only [wordRest]
      split
      · exact Nat.le_succ_of_le (ih cs)
      · simp

private theorem length_dropWhile_le (p : Char → Bool) (cs : List Char) :
    (cs.dropWhile p).length ≤ cs.length :=
  (List.dropWhile_sublist p).length_le

private theorem length_wholePart_lt {cs whole rest : List Char}
    (h : wholePart cs = .ok (whole, rest)) : rest.length < cs.length := by
  unfold wholePart at h
  split at h
  · split at h
    · split at h
      · simp at h
      · simp only [Except.ok.injEq, Prod.mk.injEq] at h
        simp [← h.2]
    · simp only [Except.ok.injEq, Prod.mk.injEq] at h
      simp [← h.2]
  · split at h
    · simp only [Except.ok.injEq, Prod.mk.injEq] at h
      rw [← h.2]
      exact Nat.lt_succ_of_le (length_dropWhile_le _ _)
    · simp at h
  · simp at h

private theorem length_fractionPart_le {cs rest : List Char} {fraction : Option (List Char)}
    (h : fractionPart cs = .ok (fraction, rest)) : rest.length ≤ cs.length := by
  unfold fractionPart at h
  split at h
  · simp only at h
    split at h
    · simp at h
    · simp only [Except.ok.injEq, Prod.mk.injEq] at h
      rw [← h.2]
      exact Nat.le_succ_of_le (length_dropWhile_le _ _)
  · simp only [Except.ok.injEq, Prod.mk.injEq] at h
    simp [← h.2]

private theorem length_signAt_le (cs : List Char) : (signAt cs).2.length ≤ cs.length := by
  unfold signAt
  split <;> simp

private theorem length_exponentAt_le {cs rest : List Char} {e : Int}
    (h : exponentAt cs = .ok (e, rest)) : rest.length ≤ cs.length := by
  unfold exponentAt at h
  simp only at h
  split at h
  · simp at h
  · split at h
    · simp only [Except.ok.injEq, Prod.mk.injEq] at h
      rw [← h.2]
      exact Nat.le_trans (length_dropWhile_le _ _) (length_signAt_le cs)
    · simp at h

private theorem length_exponentPart_le {cs rest : List Char} {e : Option Int}
    (h : exponentPart cs = .ok (e, rest)) : rest.length ≤ cs.length := by
  unfold exponentPart at h
  split at h
  · split at h
    · rename_i c tail _
      cases ht : exponentAt tail with
      | error b => simp [ht, Except.map] at h
      | ok r =>
        simp only [ht, Except.map, Except.ok.injEq, Prod.mk.injEq] at h
        rw [← h.2]
        exact Nat.le_succ_of_le (length_exponentAt_le ht)
    · simp only [Except.ok.injEq, Prod.mk.injEq] at h
      simp [← h.2]
  · simp only [Except.ok.injEq, Prod.mk.injEq] at h
    simp [← h.2]

/-- A number takes at least one character. -/
theorem length_numberAt_le (negative : Bool) (cs : List Char) :
    (numberAt negative cs).2.length ≤ cs.length - 1 := by
  unfold numberAt
  split
  · rename_i numeral rest h
    unfold numeralAt at h
    cases hw : wholePart cs with
    | error b => simp [hw, bind, Except.bind] at h
    | ok w =>
      cases hf : fractionPart w.2 with
      | error b => simp [hw, hf, bind, Except.bind] at h
      | ok f =>
        cases he : exponentPart f.2 with
        | error b => simp [hw, hf, he, bind, Except.bind] at h
        | ok e =>
          simp only [hw, hf, he, bind, Except.bind, pure, Except.pure, Except.ok.injEq,
            Prod.mk.injEq] at h
          rw [← h.2]
          exact Nat.le_trans (length_exponentPart_le he)
            (Nat.le_trans (length_fractionPart_le hf) (Nat.le_sub_one_of_lt (length_wholePart_lt hw)))
  · simp

/-- A string takes nothing from behind the text it is read from. -/
theorem length_stringAt_le (text : List Char) (broken : Option Problem) (cs : List Char) :
    (stringAt text broken cs).2.length ≤ cs.length := by
  fun_induction stringAt text broken cs with
  | case1 | case3 | case4 | case10 | case11 => simp
  | case2 => simp
  | case5 text broken rest n hn after hl ih =>
    have : after.length ≤ rest.length := by simp [after]
    simp only [List.length_cons]; omega
  | case6 text broken rest n hn after low hl hh ha ih =>
    have : after.length ≤ rest.length := by simp [after]
    simp only [List.length_drop, List.length_cons] at *; omega
  | case7 text broken rest n hn after problem hl hh ha ih =>
    have : after.length ≤ rest.length := by simp [after]
    simp only [List.length_cons]; omega
  | case8 text broken rest n hn after hl hh ih =>
    have : after.length ≤ rest.length := by simp [after]
    simp only [List.length_cons]; omega
  | case9 text broken c rest _ plain hp ih => simp only [List.length_cons]; omega
  | case12 text broken c rest _ _ _ _ hc ih => simp only [List.length_cons]; omega

/-- What follows a lexeme is no longer than what follows its first character. -/
theorem length_lexemeAt_le (c : Char) (rest : List Char) :
    (lexemeAt c rest).2.length ≤ rest.length := by
  unfold lexemeAt
  split
  iterate 6 exact Nat.le_refl _
  iterate 3 exact length_wordRest_le ..
  · exact length_stringAt_le ..
  · exact Nat.le_trans (length_numberAt_le ..) (Nat.sub_le ..)
  · split
    · exact length_numberAt_le ..
    · simp

/-! ### All lexemes -/

/-- The lexemes of a text, after those already found, which are given latest first. -/
def scanFrom (found : List Lexeme) : List Char → List Lexeme
  | [] => found.reverse
  | c :: rest =>
    if isBlank c then
      scanFrom found rest
    else
      scanFrom ((lexemeAt c rest).1 :: found) (lexemeAt c rest).2
termination_by cs => cs.length
decreasing_by
  · simp
  · exact Nat.lt_succ_of_le (length_lexemeAt_le c rest)

/-- The **lexemes of a text**. -/
def scan (s : String) : List Lexeme :=
  scanFrom [] s.toList

end Lexeme

end CurvePlot.Json
