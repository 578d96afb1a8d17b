import CurvePlot.Json.Scanner
import CurvePlot.Json.Text
import Mathlib.Tactic.SplitIfs

/-!
# Lexemes of JSON that were written

A text **spells** some lexemes before another text if the scanner, whatever it has found, passes
over the text and has found just those lexemes besides. Texts that spell can be put one after the
other. Punctuation and words spell themselves, and a string that was written spells that string,
whatever characters are in it (`Spells.stringText`), since every character is read back from what
stands for it (`stringAt_escape`).
-/

namespace CurvePlot.Json.Lexeme

/-- The scanner finds just the given lexemes in `cs`, if `rest` comes after it. -/
def Spells (cs : List Char) (ls : List Lexeme) (rest : List Char) : Prop :=
  ∀ found, scanFrom found (cs ++ rest) = scanFrom (ls.reverse ++ found) rest

theorem Spells.nil (rest : List Char) : Spells [] [] rest :=
  fun _ => rfl

theorem Spells.append {cs ds rest : List Char} {ls ms : List Lexeme}
    (h : Spells cs ls (ds ++ rest)) (h' : Spells ds ms rest) :
    Spells (cs ++ ds) (ls ++ ms) rest := by
  intro found
  rw [List.append_assoc, h, h', List.reverse_append, List.append_assoc]

/-- What a whole text spells is what its lexemes are. -/
theorem Spells.scan {cs : List Char} {ls : List Lexeme} (h : Spells cs ls []) :
    scan (String.ofList cs) = ls := by
  have found := h []
  rwa [List.append_nil, List.append_nil, scanFrom, List.reverse_reverse,
    ← String.toList_ofList (l := cs)] at found

/-- A lexeme at the head of a text is spelled by its characters. -/
theorem Spells.of_lexemeAt {c : Char} {more rest : List Char} {l : Lexeme}
    (hc : isBlank c = false) (h : lexemeAt c (more ++ rest) = (l, rest)) :
    Spells (c :: more) [l] rest := by
  intro found
  rw [List.cons_append, scanFrom, if_neg (by simp [hc]), h]
  rfl

/-! ### Punctuation and words -/

/-- The characters that are lexemes of their own. -/
inductive Punctuation : Char → Lexeme → Prop
  | openObject : Punctuation '\x7b' .openObject
  | closeObject : Punctuation '\x7d' .closeObject
  | openArray : Punctuation '[' .openArray
  | closeArray : Punctuation ']' .closeArray
  | colon : Punctuation ':' .colon
  | comma : Punctuation ',' .comma

theorem Spells.punctuation {c : Char} {l : Lexeme} (h : Punctuation c l) (rest : List Char) :
    Spells [c] [l] rest := by
  cases h <;> exact .of_lexemeAt rfl rfl

/-- A text that is matched letter by letter is taken as a whole. -/
theorem wordRest_append (found : Lexeme) (letters rest : List Char) :
    wordRest found letters (letters ++ rest) = (found, rest) := by
  induction letters with
  | nil => rfl
  | cons letter letters ih => rw [List.cons_append, wordRest, if_pos rfl, ih]

theorem Spells.null (rest : List Char) : Spells "null".toList [.null] rest :=
  show Spells ('n' :: ['u', 'l', 'l']) _ rest from .of_lexemeAt rfl (wordRest_append _ _ rest)

theorem Spells.bool (b : Bool) (rest : List Char) :
    Spells (if b then "true" else "false").toList [.bool b] rest := by
  cases b with
  | false =>
    change Spells ('f' :: ['a', 'l', 's', 'e']) _ rest
    exact .of_lexemeAt rfl (wordRest_append _ _ rest)
  | true =>
    change Spells ('t' :: ['r', 'u', 'e']) _ rest
    exact .of_lexemeAt rfl (wordRest_append _ _ rest)

/-! ### Strings -/

theorem hexValue?_digitChar : ∀ d < 16, hexValue? (Nat.digitChar d) = some d := by
  decide

/-- The four digits that a control character is escaped by are its number. -/
theorem hexQuad_control {n : Nat} (h : n < 0x20) (rest : List Char) :
    hexQuad ('0' :: '0' :: Nat.digitChar (n / 16) :: Nat.digitChar (n % 16) :: rest) = .ok n := by
  have zero : hexValue? '0' = some 0 := rfl
  rw [hexQuad, zero, hexValue?_digitChar _ (by omega), hexValue?_digitChar _ (by omega)]
  simp only [Except.ok.injEq]
  omega

variable (text : List Char) (broken : Option Problem) (rest : List Char)

/-- A backslash and a letter stand for a character. -/
theorem stringAt_escaped {c plain : Char} (h : escaped? c = some plain) :
    stringAt text broken ('\\' :: c :: rest) = stringAt (plain :: text) broken rest := by
  have hc : c ≠ 'u' := by
    rintro rfl
    cases h
  rw [stringAt, h]
  exact hc

/-- A backslash and four digits stand for a control character. -/
theorem stringAt_control {c : Char} (h : c.toNat < 0x20) :
    stringAt text broken ('\\' :: 'u' :: '0' :: '0' :: Nat.digitChar (c.toNat / 16) ::
      Nat.digitChar (c.toNat % 16) :: rest) = stringAt (c :: text) broken rest := by
  have low : isLowSurrogate c.toNat = false := by
    simp [isLowSurrogate]
    omega
  have high : isHighSurrogate c.toNat = false := by
    simp [isHighSurrogate]
    omega
  rw [stringAt, hexQuad_control h]
  simp [low, high, Char.ofNat_toNat]

/-- Any other character but a quote stands for itself. -/
theorem stringAt_plain {c : Char} (quote : c ≠ '"') (backslash : c ≠ '\\')
    (control : ¬c.toNat < 0x20) :
    stringAt text broken (c :: rest) = stringAt (c :: text) broken rest := by
  rw [stringAt.eq_def]
  split
  case h_6 heq =>
    obtain ⟨rfl, rfl⟩ := List.cons.inj heq
    rw [if_neg control]
  all_goals simp_all

/-- **Every character is read back** from what stands for it in a string. -/
theorem stringAt_escape (c : Char) :
    stringAt text broken (escape c ++ rest) = stringAt (c :: text) broken rest := by
  unfold escape
  split_ifs with quote backslash backspace tab feed formFeed ret control
  · exact quote ▸ stringAt_escaped text broken rest (c := '"') rfl
  · exact backslash ▸ stringAt_escaped text broken rest (c := '\\') rfl
  · exact backspace ▸ stringAt_escaped text broken rest (c := 'b') rfl
  · exact tab ▸ stringAt_escaped text broken rest (c := 't') rfl
  · exact feed ▸ stringAt_escaped text broken rest (c := 'n') rfl
  · exact formFeed ▸ stringAt_escaped text broken rest (c := 'f') rfl
  · exact ret ▸ stringAt_escaped text broken rest (c := 'r') rfl
  · exact stringAt_control text broken rest control
  · exact stringAt_plain text broken rest quote backslash control

theorem stringAt_flatMap_escape (cs : List Char) :
    stringAt text none (cs.flatMap escape ++ '"' :: rest) =
      (.string (String.ofList (text.reverse ++ cs)), rest) := by
  induction cs generalizing text with
  | nil => simp [stringAt, closeString]
  | cons c cs ih =>
    rw [List.flatMap_cons, List.append_assoc, stringAt_escape, ih, List.reverse_cons,
      List.append_assoc, List.singleton_append]

/-- **A string that was written** spells that string. -/
theorem Spells.stringText (s : String) :
    Spells (stringText s) [.string s] rest := by
  refine .of_lexemeAt rfl ?_
  rw [List.append_assoc, List.singleton_append]
  have read := stringAt_flatMap_escape [] rest s.toList
  rwa [List.reverse_nil, List.nil_append, String.ofList_toList] at read

/-- The key of a member, with the punctuation around it. -/
theorem Spells.key {c : Char} {l : Lexeme} (h : Punctuation c l) (name : String) :
    Spells (c :: (Json.stringText name ++ [':'])) [l, .string name, .colon] rest :=
  (Spells.punctuation h _).append
    ((Spells.stringText _ name).append (Spells.punctuation .colon rest))

end CurvePlot.Json.Lexeme
