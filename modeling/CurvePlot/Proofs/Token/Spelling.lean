import CurvePlot.Proofs.Decimal.Parts
import CurvePlot.Token.Scanner

/-!
# Scanning what was written

A text **spells** some kinds of tokens before another text if the scanner, wherever it is,
passes over the text and has found just those kinds. Texts that spell can be put one after the
other. A lexeme spells its token if what comes after it does not go on with it (`Ends`).
-/

namespace CurvePlot

namespace Token

/-- Whether no name and no number goes on with a text. -/
def Ends (rest : List Char) : Prop :=
  ∀ c ∈ rest.head?, isNamePart c = false ∧ isNumeral c = false

theorem Ends.nil : Ends [] :=
  fun _ h => by cases h

theorem Ends.cons {c : Char} (h : isNamePart c = false ∧ isNumeral c = false)
    (rest : List Char) : Ends (c :: rest) := by
  rintro d ⟨⟩
  exact h

/-- The scanner finds just the given kinds in `cs`, if `rest` comes after it. -/
def Spells (cs : List Char) (kinds : List Kind) (rest : List Char) : Prop :=
  ∀ (column : Nat) (found : List Token), ∃ (column' : Nat) (tokens : List Token),
    tokens.map Token.kind = kinds ∧
    scanFrom column found (cs ++ rest) = scanFrom column' (tokens.reverse ++ found) rest

theorem Spells.append {cs ds rest : List Char} {ks js : List Kind}
    (h : Spells cs ks (ds ++ rest)) (h' : Spells ds js rest) :
    Spells (cs ++ ds) (ks ++ js) rest := by
  intro column found
  obtain ⟨column', tokens, rfl, hscan⟩ := h column found
  obtain ⟨column'', tokens', rfl, hscan'⟩ := h' column' (tokens.reverse ++ found)
  refine ⟨column'', tokens ++ tokens', List.map_append, ?_⟩
  rw [List.append_assoc, hscan, hscan', List.reverse_append, List.append_assoc]

/-- What a whole text spells is what its tokens are. -/
theorem Spells.scan {cs : List Char} {kinds : List Kind} (h : Spells cs kinds []) :
    ∃ tokens, tokens.map Token.kind = kinds ∧ scan (String.ofList cs) = .ok tokens := by
  obtain ⟨column', tokens, rfl, hscan⟩ := h 1 []
  refine ⟨tokens, rfl, ?_⟩
  rw [List.append_nil] at hscan
  rw [Token.scan, String.toList_ofList, hscan, scanFrom]
  simp

/-! ### Lexemes -/

/-- A lexeme at the head of a text spells its token. -/
theorem Spells.of_lexeme {c : Char} {more rest : List Char} {kind : Kind}
    (hc : Text.isSeparator c = false)
    (h : ∀ column, lexeme column c (more ++ rest) = .ok (kind, more.length)) :
    Spells (c :: more) [kind] rest := by
  intro column found
  refine ⟨column + 1 + more.length, [⟨kind, column⟩], rfl, ?_⟩
  rw [List.cons_append, scanFrom, if_neg (by simp [hc]), h]
  simp

theorem Spells.space {cs rest : List Char} {kinds : List Kind} (h : Spells cs kinds rest) :
    Spells (' ' :: cs) kinds rest := by
  intro column found
  obtain ⟨column', tokens, rfl, hscan⟩ := h (column + 1) found
  refine ⟨column', tokens, rfl, ?_⟩
  rw [List.cons_append, scanFrom, if_pos (by decide), hscan]

theorem ofChar?_eq_some {c : Char} {kind : Kind} (h : Kind.ofChar? c = some kind) :
    Text.isSeparator c = false ∧ isNamePart c = false ∧ isNumeral c = false := by
  unfold Kind.ofChar? at h
  split at h <;> first | exact ⟨rfl, rfl, rfl⟩ | cases h

theorem isSeparator_eq_true {c : Char} (h : Text.isSeparator c = true) :
    isNamePart c = false ∧ isNumeral c = false := by
  simp only [Text.isSeparator, Bool.or_eq_true, decide_eq_true_eq] at h
  rcases h with (((rfl | rfl) | rfl) | rfl) | rfl <;> exact ⟨rfl, rfl⟩

/-- A character of a name or a number is no symbol and no separator. -/
theorem ofChar?_eq_none {c : Char} (h : isNamePart c = true ∨ isNumeral c = true) :
    Kind.ofChar? c = none ∧ Text.isSeparator c = false := by
  constructor
  · cases hc : Kind.ofChar? c with
    | none => rfl
    | some kind => simp [ofChar?_eq_some hc] at h
  · cases hc : Text.isSeparator c with
    | false => rfl
    | true => simp [isSeparator_eq_true hc] at h

/-- A character that is a token of its own. -/
theorem Spells.symbol {c : Char} {kind : Kind} (h : Kind.ofChar? c = some kind)
    (rest : List Char) : Spells [c] [kind] rest := by
  refine .of_lexeme (ofChar?_eq_some h).1 fun column => ?_
  rw [lexeme, h]
  rfl

/-- No letter is a digit. -/
theorem isDigit_of_isAlpha {c : Char} (h : c.isAlpha = true) : c.isDigit = false := by
  rw [Bool.eq_false_iff]
  intro hdigit
  obtain ⟨-, hc⟩ := Char.isDigit_iff_toNat.mp hdigit
  have hle : c.val ≤ '9'.val := hc
  rcases Bool.or_eq_true_iff.mp h with h | h
  · have hupper : 'A'.val ≤ c.val := (of_decide_eq_true h).1
    exact absurd (UInt32.le_trans hupper hle) (by decide)
  · have hlower : 'a'.val ≤ c.val := of_decide_eq_true (Bool.and_eq_true_iff.mp h).1
    exact absurd (UInt32.le_trans hlower hle) (by decide)

theorem isNumeral_of_isNameStart {c : Char} (h : isNameStart c = true) :
    isNamePart c = true ∧ isNumeral c = false := by
  simp only [isNameStart, Bool.or_eq_true, decide_eq_true_eq] at h
  rcases h with h | rfl
  · refine ⟨by simp [isNamePart, Char.isAlphanum, h], ?_⟩
    have hdot : c ≠ '.' := by
      rintro rfl
      cases h
    simp [isNumeral, isDigit_of_isAlpha h, hdot]
  · exact ⟨rfl, rfl⟩

/-- Whether a text is a name. -/
def isName : List Char → Bool
  | c :: more => isNameStart c && more.all isNamePart
  | [] => false

/-- A **name**, if no name goes on with it. -/
theorem Spells.name {cs rest : List Char} (h : isName cs = true) (ends : Ends rest) :
    Spells cs [.name (String.ofList cs)] rest := by
  cases cs with
  | nil => cases h
  | cons c more =>
  obtain ⟨hc, hmore⟩ : isNameStart c = true ∧ ∀ d ∈ more, isNamePart d = true := by
    simpa [isName] using h
  -- the first letter makes it a name, and the last one is the last that belongs to it
  obtain ⟨hpart, hnumeral⟩ := isNumeral_of_isNameStart hc
  obtain ⟨hsymbol, hseparator⟩ := ofChar?_eq_none (.inl hpart)
  refine .of_lexeme hseparator fun column => ?_
  rw [lexeme, hsymbol]
  simp only [hnumeral, hc]
  rw [takeWhile_append_of_head hmore fun d hd => (ends d hd).1]
  rfl

theorem exponentLength_of_ends {rest : List Char} (ends : Ends rest) : exponentLength rest = 0 := by
  cases rest with
  | nil => rfl
  | cons c rest =>
    have hc := (ends c rfl).1
    rw [exponentLength.eq_def]
    simp only
    rw [if_neg]
    rintro (rfl | rfl) <;> cases hc

/-- A **number**, if no number goes on with it and no exponent follows. -/
theorem Spells.number {cs rest : List Char} {value : Float} (nonempty : cs ≠ [])
    (numeral : ∀ c ∈ cs, isNumeral c = true) (read : numberValue? cs = some value)
    (ends : Ends rest) : Spells cs [.number value] rest := by
  obtain ⟨c, more, rfl⟩ := List.exists_cons_of_ne_nil nonempty
  have hc := numeral c List.mem_cons_self
  obtain ⟨hsymbol, hseparator⟩ := ofChar?_eq_none (.inr hc)
  refine .of_lexeme hseparator fun column => ?_
  -- no exponent is taken from what comes after
  have length : numberLength (c :: (more ++ rest)) = (c :: more).length := by
    rw [numberLength, ← List.cons_append,
      takeWhile_append_of_head numeral fun d hd => (ends d hd).2, List.drop_left,
      exponentLength_of_ends ends, Nat.add_zero]
  have literal : (c :: (more ++ rest)).take (c :: more).length = c :: more := by
    rw [← List.cons_append, List.take_left]
  rw [lexeme, hsymbol]
  simp only [hc, length, literal, read]
  rfl

end Token

end CurvePlot
