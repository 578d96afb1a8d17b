import CurvePlot.Proofs.Json.Numerals
import CurvePlot.Proofs.Json.Values

/-!
# Texts of JSON that anybody wrote

What the writer makes is one text of a value among many. Blanks may stand between any two lexemes, a
number may have an exponent with either mark and either sign, and any character of a string may be
escaped, or be written as a surrogate pair if it is far out. A value **has a text** (`Value.HasText`)
if the text is its lexemes, each written in one of these ways, with blanks between them. The grammar
says nothing of how a text is read; that it is cut into the lexemes of the value, whichever way it
was written, is `Value.HasText.scan`.

Strings are read from left to right, and the meaning of what was read so far is lost for good at the
first half of a surrogate pair that stands alone (`closing`).
-/

namespace CurvePlot.Json

/-! ### Strings -/

/-- Four hexadecimal digits and the number they say. -/
inductive HexDigits : List Char → ℕ → Prop
  | mk {a b c d : Char} {i j k l : ℕ} (ha : Lexeme.hexValue? a = some i)
    (hb : Lexeme.hexValue? b = some j) (hc : Lexeme.hexValue? c = some k)
    (hd : Lexeme.hexValue? d = some l) :
    HexDigits [a, b, c, d] (((i * 16 + j) * 16 + k) * 16 + l)

/-- The **text of a string** between its quotes, and its meaning, unless half of a surrogate pair is
in it that does not stand beside its other half. -/
inductive StringText : List Char → Option (List Char) → Prop
  | nil : StringText [] (some [])
  | plain {c : Char} {cs : List Char} {s : Option (List Char)} (quote : c ≠ '"')
    (backslash : c ≠ '\\') (control : ¬c.toNat < 0x20) (more : StringText cs s) :
    StringText (c :: cs) (s.map (c :: ·))
  | escaped {c meant : Char} {cs : List Char} {s : Option (List Char)}
    (h : Lexeme.escaped? c = some meant) (more : StringText cs s) :
    StringText ('\\' :: c :: cs) (s.map (meant :: ·))
  | numbered {ds cs : List Char} {n : ℕ} {s : Option (List Char)} (h : HexDigits ds n)
    (low : Lexeme.isLowSurrogate n = false) (high : Lexeme.isHighSurrogate n = false)
    (more : StringText cs s) :
    StringText ('\\' :: 'u' :: (ds ++ cs)) (s.map (Char.ofNat n :: ·))
  | pair {ds es cs : List Char} {m n : ℕ} {s : Option (List Char)} (hm : HexDigits ds m)
    (high : Lexeme.isHighSurrogate m = true) (hn : HexDigits es n)
    (low : Lexeme.isLowSurrogate n = true) (more : StringText cs s) :
    StringText ('\\' :: 'u' :: (ds ++ '\\' :: 'u' :: (es ++ cs)))
      (s.map (Lexeme.joinSurrogates m n :: ·))
  | loneLow {ds cs : List Char} {n : ℕ} {s : Option (List Char)} (h : HexDigits ds n)
    (low : Lexeme.isLowSurrogate n = true) (more : StringText cs s) :
    StringText ('\\' :: 'u' :: (ds ++ cs)) none
  | loneHigh {ds cs : List Char} {n : ℕ} {s : Option (List Char)} (h : HexDigits ds n)
    (high : Lexeme.isHighSurrogate n = true) (more : StringText cs s)
    (alone : ∀ es m after, cs = '\\' :: 'u' :: (es ++ after) → HexDigits es m →
      Lexeme.isLowSurrogate m = false) :
    StringText ('\\' :: 'u' :: (ds ++ cs)) none

namespace Lexeme

theorem hexQuad_append {ds : List Char} {n : ℕ} (h : HexDigits ds n) (rest : List Char) :
    hexQuad (ds ++ rest) = .ok n := by
  obtain ⟨ha, hb, hc, hd⟩ := h
  simp only [List.cons_append, List.nil_append, hexQuad, ha, hb, hc, hd]

theorem drop_hexDigits {ds : List Char} {n : ℕ} (h : HexDigits ds n) (rest : List Char) :
    (ds ++ rest).drop 4 = rest := by
  obtain ⟨-, -, -, -⟩ := h
  rfl

theorem not_isLowSurrogate_of_isHighSurrogate {n : ℕ} (h : isHighSurrogate n = true) :
    isLowSurrogate n = false := by
  simp only [isHighSurrogate, isLowSurrogate, Bool.and_eq_true, decide_eq_true_eq,
    Bool.and_eq_false_iff, decide_eq_false_iff_not] at h ⊢
  omega

/-- Half of a surrogate pair stands alone unless the other half is written next to it. -/
theorem lowSurrogateAt_of_alone {cs : List Char} {s : Option (List Char)} (h : StringText cs s)
    (alone : ∀ es m after, cs = '\\' :: 'u' :: (es ++ after) → HexDigits es m →
      isLowSurrogate m = false) (rest : List Char) :
    lowSurrogateAt (cs ++ '"' :: rest) = .error .malformed := by
  have digits {ds more : List Char} {n : ℕ} (hd : HexDigits ds n)
      (low : isLowSurrogate n = false) :
      lowSurrogateAt ('\\' :: 'u' :: (ds ++ more)) = .error .malformed := by
    rw [lowSurrogateAt, hexQuad_append hd, ok_bind, low]
    rfl
  cases h with
  | nil => rfl
  | @plain c cs _ _ backslash =>
    rw [List.cons_append, lowSurrogateAt.eq_def]
    split
    all_goals simp_all
  | @escaped c _ cs _ h =>
    rw [List.cons_append, List.cons_append, lowSurrogateAt]
    · nofun
    · nofun
    · rintro _ ⟨⟩
      cases h
  | numbered hd low =>
    rw [List.cons_append, List.cons_append, List.append_assoc]
    exact digits hd low
  | pair hd high =>
    rw [List.cons_append, List.cons_append, List.append_assoc]
    exact digits hd (not_isLowSurrogate_of_isHighSurrogate high)
  | loneLow hd low =>
    rw [alone _ _ _ rfl hd] at low
    cases low
  | loneHigh hd high =>
    rw [List.cons_append, List.cons_append, List.append_assoc]
    exact digits hd (not_isLowSurrogate_of_isHighSurrogate high)

variable (text : List Char) (broken : Option Problem) (rest : List Char)

theorem stringAt_numbered {ds : List Char} {n : ℕ} (h : HexDigits ds n)
    (low : isLowSurrogate n = false) (high : isHighSurrogate n = false) :
    stringAt text broken ('\\' :: 'u' :: (ds ++ rest)) =
      stringAt (Char.ofNat n :: text) broken rest := by
  rw [stringAt, hexQuad_append h]
  simp only [low, high, drop_hexDigits h, Bool.false_eq_true, if_false]

theorem stringAt_pair {ds es : List Char} {m n : ℕ} (hm : HexDigits ds m)
    (high : isHighSurrogate m = true) (hn : HexDigits es n) (low : isLowSurrogate n = true) :
    stringAt text broken ('\\' :: 'u' :: (ds ++ '\\' :: 'u' :: (es ++ rest))) =
      stringAt (joinSurrogates m n :: text) broken rest := by
  have other : lowSurrogateAt ('\\' :: 'u' :: (es ++ rest)) = .ok n := by
    rw [lowSurrogateAt, hexQuad_append hn, ok_bind, if_pos low]
    rfl
  have after : ('\\' :: 'u' :: (es ++ rest)).drop 6 = rest := drop_hexDigits hn rest
  rw [stringAt, hexQuad_append hm]
  simp only [not_isLowSurrogate_of_isHighSurrogate high, high, drop_hexDigits hm, other, after,
    Bool.false_eq_true, if_false, if_true]

theorem stringAt_loneLow {ds : List Char} {n : ℕ} (h : HexDigits ds n)
    (low : isLowSurrogate n = true) :
    stringAt text broken ('\\' :: 'u' :: (ds ++ rest)) =
      stringAt text (broken.or (some .malformed)) rest := by
  rw [stringAt, hexQuad_append h]
  simp only [low, drop_hexDigits h, if_true]

theorem stringAt_loneHigh {ds : List Char} {n : ℕ} (h : HexDigits ds n)
    (high : isHighSurrogate n = true) (alone : lowSurrogateAt rest = .error .malformed) :
    stringAt text broken ('\\' :: 'u' :: (ds ++ rest)) =
      stringAt text (broken.or (some .malformed)) rest := by
  rw [stringAt, hexQuad_append h]
  simp only [not_isLowSurrogate_of_isHighSurrogate high, high, drop_hexDigits h, alone,
    Bool.false_eq_true, if_false, if_true]

/-- The lexeme of a string of which `text` was read, latest first, and the rest means `s`. -/
def closing (s : Option (List Char)) : Lexeme :=
  match broken with
  | some problem => .badString problem none
  | none => .ofString? (s.map fun more => String.ofList (text.reverse ++ more))

theorem closing_cons (c : Char) (s : Option (List Char)) :
    closing (c :: text) broken s = closing text broken (s.map (c :: ·)) := by
  cases broken with
  | some problem => rfl
  | none => cases s <;> simp [closing]

theorem closing_or (s : Option (List Char)) :
    closing text (broken.or (some .malformed)) s = closing text broken none := by
  cases broken <;> rfl

/-- **However a string is written**, what is read of it is its meaning. -/
theorem stringAt_stringText {cs : List Char} {s : Option (List Char)} (h : StringText cs s) :
    stringAt text broken (cs ++ '"' :: rest) = (closing text broken s, rest) := by
  induction h generalizing text broken with
  | nil =>
    rw [List.nil_append, stringAt, closeString.eq_def]
    cases broken <;> simp [closing, ofString?]
  | plain quote backslash control _ ih =>
    rw [List.cons_append, stringAt_plain text broken _ quote backslash control, ih, closing_cons]
  | escaped h _ ih =>
    rw [List.cons_append, List.cons_append, stringAt_escaped text broken _ h, ih, closing_cons]
  | numbered h low high _ ih =>
    rw [List.cons_append, List.cons_append, List.append_assoc,
      stringAt_numbered text broken _ h low high, ih, closing_cons]
  | pair hm high hn low _ ih =>
    rw [List.cons_append, List.cons_append, List.append_assoc, List.cons_append, List.cons_append,
      List.append_assoc, stringAt_pair text broken _ hm high hn low, ih, closing_cons]
  | loneLow h low _ ih =>
    rw [List.cons_append, List.cons_append, List.append_assoc,
      stringAt_loneLow text broken _ h low, ih, closing_or]
  | loneHigh h high more alone ih =>
    rw [List.cons_append, List.cons_append, List.append_assoc,
      stringAt_loneHigh text broken _ h high (lowSurrogateAt_of_alone more alone rest), ih,
      closing_or]

end Lexeme

/-- What the writer makes of a character is one way to write it. -/
theorem StringText.escape {cs : List Char} {s : Option (List Char)} (more : StringText cs s)
    (c : Char) : StringText (Json.escape c ++ cs) (s.map (c :: ·)) := by
  unfold Json.escape
  split_ifs with quote backslash backspace tab feed formFeed ret control
  · exact quote ▸ .escaped (c := '"') rfl more
  · exact backslash ▸ .escaped (c := '\\') rfl more
  · exact backspace ▸ .escaped (c := 'b') rfl more
  · exact tab ▸ .escaped (c := 't') rfl more
  · exact feed ▸ .escaped (c := 'n') rfl more
  · exact formFeed ▸ .escaped (c := 'f') rfl more
  · exact ret ▸ .escaped (c := 'r') rfl more
  · have zero : Lexeme.hexValue? '0' = some 0 := rfl
    have digits := HexDigits.mk zero zero (Lexeme.hexValue?_digitChar (c.toNat / 16) (by omega))
      (Lexeme.hexValue?_digitChar (c.toNat % 16) (by omega))
    have value : ((0 * 16 + 0) * 16 + c.toNat / 16) * 16 + c.toNat % 16 = c.toNat := by omega
    rw [value] at digits
    have text := StringText.numbered digits (by simp [Lexeme.isLowSurrogate]; omega)
      (by simp [Lexeme.isHighSurrogate]; omega) more
    rwa [Char.ofNat_toNat] at text
  · exact .plain quote backslash control more

theorem stringText_flatMap_escape (cs : List Char) :
    StringText (cs.flatMap escape) (some cs) := by
  induction cs with
  | nil => exact .nil
  | cons c cs ih => exact ih.escape c

/-! ### Texts of lexemes -/

/-- The **text of a lexeme** that is not broken, if `rest` comes after it. -/
inductive LexemeText (rest : List Char) : List Char → Lexeme → Prop
  | punctuation {c : Char} {l : Lexeme} (h : Lexeme.Punctuation c l) : LexemeText rest [c] l
  | null : LexemeText rest "null".toList .null
  | bool (b : Bool) : LexemeText rest (if b then "true" else "false").toList (.bool b)
  | number {cs : List Char} {t : Numeral} (h : NumberText cs t) (ends : EndsNumber rest) :
    LexemeText rest cs (.number t.value?)
  | string {cs : List Char} {s : Option (List Char)} (h : StringText cs s) :
    LexemeText rest ('"' :: (cs ++ ['"'])) (.ofString? (s.map String.ofList))

theorem LexemeText.stringText (rest : List Char) (s : String) :
    LexemeText rest (Json.stringText s) (.string s) := by
  have text : LexemeText rest _ _ := .string (stringText_flatMap_escape s.toList)
  rwa [Option.map_some, String.ofList_toList] at text

/-- A text is that of some lexemes with **blanks** anywhere between them. -/
inductive LaidOut : List Char → List Lexeme → Prop
  | nil : LaidOut [] []
  | blank {c : Char} {cs : List Char} {ls : List Lexeme} (hc : Lexeme.isBlank c = true)
    (more : LaidOut cs ls) : LaidOut (c :: cs) ls
  | lexeme {cs rest : List Char} {l : Lexeme} {ls : List Lexeme} (h : LexemeText rest cs l)
    (more : LaidOut rest ls) : LaidOut (cs ++ rest) (l :: ls)

namespace Lexeme

theorem Spells.lexemeText {cs rest : List Char} {l : Lexeme} (h : LexemeText rest cs l) :
    Spells cs [l] rest := by
  cases h with
  | punctuation h => exact .punctuation h rest
  | null => exact .null rest
  | bool b => exact .bool b rest
  | number h ends => exact .numberText_of h ends
  | @string cs s h =>
    refine .of_lexemeAt rfl ?_
    rw [List.append_assoc, List.singleton_append]
    refine (stringAt_stringText [] none rest h).trans ?_
    cases s <;> rfl

/-- A blank spells nothing. -/
theorem Spells.blank {c : Char} (hc : isBlank c = true) (rest : List Char) :
    Spells [c] [] rest := by
  intro found
  rw [List.singleton_append, scanFrom, if_pos hc]
  rfl

theorem Spells.laidOut {cs : List Char} {ls : List Lexeme} (h : LaidOut cs ls) :
    Spells cs ls [] := by
  induction h with
  | nil => exact .nil []
  | blank hc _ ih => exact (Spells.blank hc _).append ih
  | @lexeme cs rest l ls h _ ih =>
    rw [← List.append_nil rest] at h
    exact (Spells.lexemeText h).append ih

end Lexeme

/-- A text **is that of a value** if it is the text of its lexemes, with blanks anywhere. -/
def Value.HasText (v : Value) (body : String) : Prop :=
  LaidOut body.toList v.lexemes

/-- **However a value is written**, its text is cut into its lexemes. -/
theorem Value.HasText.scan {v : Value} {body : String} (h : v.HasText body) :
    Lexeme.scan body = v.lexemes := by
  rw [← String.ofList_toList (s := body)]
  exact (Lexeme.Spells.laidOut h).scan

end CurvePlot.Json
