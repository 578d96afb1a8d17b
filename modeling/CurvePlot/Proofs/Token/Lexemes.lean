import CurvePlot.Proofs.Token.Spelling

/-!
# Lexemes

Which texts are lexemes is said by their shape alone: a symbol, a name, or a **number lexeme**, which
is a mantissa of digits and points and perhaps an exponent. A lexeme **denotes** a token. Symbols and
names always do; a number lexeme does if its mantissa has a digit and at most one point and its value
is finite, and then it denotes that value.

A lexeme is taken **at its longest**: `IsLongest l rest` says that no longer lexeme begins where `l`
does when `rest` comes after it. The longest lexeme is unique, and the scanner finds it
(`lexeme_eq_ok`).
-/

namespace CurvePlot

namespace Token

/-! ### The shapes of lexemes -/

/-- The characters that are lexemes of their own. -/
def symbols : List (Char × Kind) :=
  [('+', .plus), ('-', .minus), ('*', .star), ('/', .slash), ('^', .caret), ('(', .lparen),
    (')', .rparen), (',', .comma)]

/-- Digits and points, at least one character. -/
structure IsMantissa (m : List Char) : Prop where
  nonempty : m ≠ []
  numeral : ∀ c ∈ m, c.isDigit = true ∨ c = '.'

/-- A **number lexeme** with its mantissa and the power of ten that its exponent states. -/
inductive IsNumber : (l mantissa : List Char) → (power : Int) → Prop
  | intro {m e : List Char} {power : Int} (hm : IsMantissa m) (he : Decimal.ExponentPart e power) :
      IsNumber (m ++ e) m power

/-- The texts that are **lexemes** by their shape. -/
inductive IsLexeme : List Char → Prop
  | symbol {c : Char} {k : Kind} (h : (c, k) ∈ symbols) : IsLexeme [c]
  | name {l : List Char} (h : isName l = true) : IsLexeme l
  | number {l m : List Char} {power : Int} (h : IsNumber l m power) : IsLexeme l

/-- The token that a lexeme **denotes**. -/
inductive Denotes : List Char → Kind → Prop
  | symbol {c : Char} {k : Kind} (h : (c, k) ∈ symbols) : Denotes [c] k
  | name {l : List Char} (h : isName l = true) : Denotes l (.name (String.ofList l))
  | number {l m : List Char} {power : Int} (h : IsNumber l m power)
      (digit : ∃ c ∈ m, c.isDigit = true) (point : m.count '.' ≤ 1)
      (finite : (Decimal.ofParts m power).toFloat.isFinite = true) :
      Denotes l (.number (Decimal.ofParts m power).toFloat)

/-- A lexeme is the **longest** one at the head of `l ++ rest`. -/
structure IsLongest (l rest : List Char) : Prop where
  isLexeme : IsLexeme l
  length_le : ∀ l', IsLexeme l' → l' <+: l ++ rest → l'.length ≤ l.length

/-- Only one lexeme is the longest at the head of a text. -/
theorem IsLongest.unique {l rest l' rest' : List Char} (h : IsLongest l rest)
    (h' : IsLongest l' rest') (same : l ++ rest = l' ++ rest') : l = l' ∧ rest = rest' := by
  have le : l'.length ≤ l.length := h.length_le l' h'.isLexeme (same ▸ List.prefix_append l' rest')
  have ge : l.length ≤ l'.length := h'.length_le l h.isLexeme (same ▸ List.prefix_append l rest)
  exact List.append_inj same (Nat.le_antisymm ge le)

/-- What is longest before some text is longest before a part of it. -/
theorem IsLongest.of_prefix {l rest rest' : List Char} (h : IsLongest l rest)
    (part : rest' <+: rest) : IsLongest l rest' :=
  ⟨h.isLexeme, fun l' hl' begins =>
    h.length_le l' hl' (begins.trans ((List.prefix_append_right_inj l).mpr part))⟩

/-! ### The first character of a lexeme -/

theorem mem_symbols_iff {c : Char} {k : Kind} : (c, k) ∈ symbols ↔ Kind.ofChar? c = some k := by
  constructor
  · intro h
    simp only [symbols, List.mem_cons, Prod.mk.injEq, List.not_mem_nil, or_false] at h
    rcases h with ⟨rfl, rfl⟩ | ⟨rfl, rfl⟩ | ⟨rfl, rfl⟩ | ⟨rfl, rfl⟩ | ⟨rfl, rfl⟩ | ⟨rfl, rfl⟩ |
      ⟨rfl, rfl⟩ | ⟨rfl, rfl⟩ <;> rfl
  · intro h
    rw [Kind.ofChar?.eq_def] at h
    split at h <;> first | (cases h; simp [symbols]) | cases h

theorem isNumeral_iff {c : Char} : isNumeral c = true ↔ c.isDigit = true ∨ c = '.' := by
  simp [isNumeral]

theorem IsNumber.exists_cons {l m : List Char} {power : Int} (h : IsNumber l m power) :
    ∃ c more, l = c :: more ∧ isNumeral c = true := by
  obtain ⟨hm, -⟩ := h
  obtain ⟨c, more, rfl⟩ := List.exists_cons_of_ne_nil hm.nonempty
  exact ⟨c, _, rfl, isNumeral_iff.mpr (hm.numeral c List.mem_cons_self)⟩

/-- What a lexeme is can be told from its first character. -/
theorem IsLexeme.cases_head {l : List Char} (h : IsLexeme l) :
    ∃ c more, l = c :: more ∧
      ((∃ k, Kind.ofChar? c = some k ∧ more = []) ∨
        (isNameStart c = true ∧ isName l = true) ∨
        (isNumeral c = true ∧ ∃ m power, IsNumber l m power)) := by
  rcases h with h | h | h
  · exact ⟨_, _, rfl, .inl ⟨_, mem_symbols_iff.mp h, rfl⟩⟩
  · rcases l with _ | ⟨c, more⟩
    · exact absurd h (by decide)
    · exact ⟨c, more, rfl, .inr (.inl ⟨(Bool.and_eq_true_iff.mp h).1, h⟩)⟩
  · obtain ⟨c, more, rfl, hc⟩ := h.exists_cons
    exact ⟨c, more, rfl, .inr (.inr ⟨hc, _, _, h⟩)⟩

theorem isSeparator_of_isLexeme {c : Char} {more : List Char} (h : IsLexeme (c :: more)) :
    Text.isSeparator c = false := by
  obtain ⟨c, more, ⟨⟩, ⟨k, hk, -⟩ | ⟨hc, -⟩ | ⟨hc, -⟩⟩ := h.cases_head
  · exact (ofChar?_eq_some hk).1
  · exact (ofChar?_eq_none (.inl (isNumeral_of_isNameStart hc).1)).2
  · exact (ofChar?_eq_none (.inr hc)).2

/-- A lexeme that begins with a digit or a point is a number lexeme. -/
theorem IsLexeme.exists_isNumber {c : Char} {more : List Char} (h : IsLexeme (c :: more))
    (hc : isNumeral c = true) : ∃ m power, IsNumber (c :: more) m power := by
  obtain ⟨c, more, ⟨⟩, ⟨k, hk, -⟩ | ⟨hstart, -⟩ | ⟨-, hnumber⟩⟩ := h.cases_head
  · rw [(ofChar?_eq_none (.inr hc)).1] at hk
    exact absurd hk (by simp)
  · rw [(isNumeral_of_isNameStart hstart).2] at hc
    exact absurd hc (by decide)
  · exact hnumber

/-! ### The longest symbol and name -/

theorem isLongest_symbol {c : Char} {k : Kind} (h : Kind.ofChar? c = some k) (rest : List Char) :
    IsLongest [c] rest := by
  refine ⟨.symbol (mem_symbols_iff.mpr h), fun l' hl' begins => ?_⟩
  obtain ⟨c', more, rfl, hcases⟩ := hl'.cases_head
  obtain ⟨rfl, -⟩ := List.cons_prefix_cons.mp begins
  have hsymbol := ofChar?_eq_some h
  rcases hcases with ⟨-, -, rfl⟩ | ⟨hc, -⟩ | ⟨hc, -⟩
  · rfl
  · rw [(isNumeral_of_isNameStart hc).1] at hsymbol
    exact absurd hsymbol.2.1 (by decide)
  · rw [hc] at hsymbol
    exact absurd hsymbol.2.2 (by decide)

/-- A run that is a part of a text is a part of the longest run. -/
theorem length_le_length_takeWhile {p : Char → Bool} {run cs : List Char}
    (hrun : ∀ c ∈ run, p c = true) (part : run <+: cs) :
    run.length ≤ (cs.takeWhile p).length := by
  obtain ⟨rest, rfl⟩ := part
  rw [List.takeWhile_append_of_pos hrun, List.length_append]
  exact Nat.le_add_right _ _

theorem isLongest_name {c : Char} (h : isNameStart c = true) (rest : List Char) :
    IsLongest (c :: rest.takeWhile isNamePart) (rest.dropWhile isNamePart) := by
  have name : isName (c :: rest.takeWhile isNamePart) = true := by
    simp [isName, h]
  refine ⟨.name name, fun l' hl' begins => ?_⟩
  rw [List.cons_append, List.takeWhile_append_dropWhile] at begins
  obtain ⟨c', more, rfl, hcases⟩ := hl'.cases_head
  obtain ⟨rfl, hmore⟩ := List.cons_prefix_cons.mp begins
  obtain ⟨hpart, hnumeral⟩ := isNumeral_of_isNameStart h
  rcases hcases with ⟨k, hk, -⟩ | ⟨-, hname⟩ | ⟨hc, -⟩
  · rw [(ofChar?_eq_none (.inl hpart)).1] at hk
    exact absurd hk (by simp)
  · have parts : ∀ d ∈ more, isNamePart d = true :=
      List.all_eq_true.mp (Bool.and_eq_true_iff.mp hname).2
    exact Nat.succ_le_succ (length_le_length_takeWhile parts hmore)
  · rw [hnumeral] at hc
    exact absurd hc (by decide)

/-! ### The longest number lexeme -/

theorem take_digitRun (cs : List Char) : cs.take (digitRun cs) = cs.takeWhile Char.isDigit :=
  (List.prefix_iff_eq_take.mp (List.takeWhile_prefix _)).symm

theorem isDigit_of_mem_take_digitRun {cs : List Char} :
    ∀ c ∈ cs.take (digitRun cs), c.isDigit = true := by
  intro c hc
  rw [take_digitRun] at hc
  exact List.mem_takeWhile_imp hc

theorem take_digitRun_ne_nil {cs : List Char} (h : digitRun cs ≠ 0) :
    cs.take (digitRun cs) ≠ [] := by
  rw [take_digitRun]
  exact List.ne_nil_of_length_pos (Nat.pos_of_ne_zero h)

theorem exponentLength_le (cs : List Char) : exponentLength cs ≤ cs.length := by
  have run (cs : List Char) : digitRun cs ≤ cs.length := (List.takeWhile_prefix _).length_le
  rcases cs with _ | ⟨mark, _ | ⟨sign, digits⟩⟩
  · exact Nat.le_refl 0
  · simp [exponentLength]
  · have signed := run digits
    have unsigned := run (sign :: digits)
    simp only [exponentLength, List.length_cons] at unsigned ⊢
    split_ifs <;> omega

/-- What is taken for an exponent is one. -/
theorem exists_exponentPart (cs : List Char) :
    ∃ power, Decimal.ExponentPart (cs.take (exponentLength cs)) power := by
  have none (cs : List Char) : ∃ power, Decimal.ExponentPart (cs.take 0) power := ⟨0, .absent⟩
  rcases cs with _ | ⟨mark, rest⟩
  · exact none []
  rw [exponentLength.eq_def]
  simp only
  by_cases hmark : mark = 'e' ∨ mark = 'E'
  · rw [if_pos hmark]
    rcases rest with _ | ⟨sign, digits⟩
    · exact none _
    simp only
    by_cases hsign : sign = '+' ∨ sign = '-'
    · rw [if_pos hsign]
      split
      · exact none _
      · rename_i run
        rw [Nat.add_comm, List.take_succ_cons, List.take_succ_cons]
        have nonempty := take_digitRun_ne_nil run
        rcases hsign with rfl | rfl
        · exact ⟨_, .positive hmark nonempty isDigit_of_mem_take_digitRun⟩
        · exact ⟨_, .negative hmark nonempty isDigit_of_mem_take_digitRun⟩
    · rw [if_neg hsign]
      split
      · exact none _
      · rename_i run
        rw [Nat.add_comm, List.take_succ_cons]
        exact ⟨_, .unsigned hmark (take_digitRun_ne_nil run) isDigit_of_mem_take_digitRun⟩
  · rw [if_neg hmark]
    exact none _

/-- No longer exponent could have been taken. -/
theorem length_le_exponentLength {e cs : List Char} {power : Int}
    (he : Decimal.ExponentPart e power) (part : e <+: cs) : e.length ≤ exponentLength cs := by
  have run {digits : List Char} (more : List Char) (nonempty : digits ≠ [])
      (hdigits : ∀ c ∈ digits, c.isDigit = true) :
      digits.length ≤ digitRun (digits ++ more) ∧ digitRun (digits ++ more) ≠ 0 := by
    have le : digits.length ≤ digitRun (digits ++ more) :=
      length_le_length_takeWhile hdigits (List.prefix_append digits more)
    have pos := List.length_pos_iff.mpr nonempty
    exact ⟨le, by omega⟩
  have signed {mark sign : Char} {digits : List Char} (more : List Char)
      (hmark : mark = 'e' ∨ mark = 'E') (hsign : sign = '+' ∨ sign = '-') (nonempty : digits ≠ [])
      (hdigits : ∀ c ∈ digits, c.isDigit = true) :
      (mark :: sign :: digits).length ≤ exponentLength (mark :: sign :: (digits ++ more)) := by
    obtain ⟨le, pos⟩ := run more nonempty hdigits
    rw [exponentLength, if_pos hmark, if_pos hsign, if_neg pos]
    simp only [List.length_cons]
    omega
  obtain ⟨more, rfl⟩ := part
  rcases he with _ | ⟨hmark, nonempty, hdigits⟩ | ⟨hmark, nonempty, hdigits⟩ |
    ⟨hmark, nonempty, hdigits⟩
  · exact Nat.zero_le _
  · obtain ⟨d, digits, rfl⟩ := List.exists_cons_of_ne_nil nonempty
    have unsigned : ¬(d = '+' ∨ d = '-') := by
      rintro (rfl | rfl) <;> exact absurd (hdigits _ List.mem_cons_self) (by decide)
    obtain ⟨le, pos⟩ := run more nonempty hdigits
    rw [List.cons_append] at le pos
    rw [List.cons_append, List.cons_append, exponentLength, if_pos hmark, if_neg unsigned,
      if_neg pos]
    simp only [List.length_cons] at le ⊢
    omega
  · exact signed more hmark (.inl rfl) nonempty hdigits
  · exact signed more hmark (.inr rfl) nonempty hdigits

theorem numberLength_le (cs : List Char) : numberLength cs ≤ cs.length := by
  have exponent := exponentLength_le (cs.drop (cs.takeWhile isNumeral).length)
  have mantissa : (cs.takeWhile isNumeral).length ≤ cs.length :=
    (List.takeWhile_prefix _).length_le
  rw [List.length_drop] at exponent
  rw [numberLength]
  omega

/-- The lexeme that the scanner takes for a number is one. -/
theorem exists_isNumber_take {c : Char} (h : isNumeral c = true) (rest : List Char) :
    ∃ m power, IsNumber ((c :: rest).take (numberLength (c :: rest))) m power := by
  have mantissa : IsMantissa ((c :: rest).takeWhile isNumeral) :=
    ⟨by simp [h], fun d hd => isNumeral_iff.mp (List.mem_takeWhile_imp hd)⟩
  have taken : (c :: rest).take ((c :: rest).takeWhile isNumeral).length =
      (c :: rest).takeWhile isNumeral :=
    (List.prefix_iff_eq_take.mp (List.takeWhile_prefix _)).symm
  obtain ⟨power, he⟩ :=
    exists_exponentPart ((c :: rest).drop ((c :: rest).takeWhile isNumeral).length)
  refine ⟨(c :: rest).takeWhile isNumeral, power, ?_⟩
  rw [numberLength, List.take_add, taken]
  exact .intro mantissa he

/-- A number lexeme at the head of a text is no longer than the one that the scanner takes. -/
theorem IsNumber.length_le {l cs m : List Char} {power : Int} (h : IsNumber l m power)
    (part : l <+: cs) : l.length ≤ numberLength cs := by
  obtain ⟨hm, he⟩ := h
  rename_i e
  have numeral : ∀ c ∈ m, isNumeral c = true := fun c hc => isNumeral_iff.mpr (hm.numeral c hc)
  obtain ⟨more, rfl⟩ := part
  rw [numberLength, List.length_append]
  rcases e with _ | ⟨mark, digits⟩
  · have le : m.length ≤ ((m ++ [] ++ more).takeWhile isNumeral).length :=
      length_le_length_takeWhile numeral ((List.append_nil m).symm ▸ List.prefix_append m more)
    exact Nat.le_trans le (Nat.le_add_right _ _)
  · -- an exponent ends the mantissa, so the mantissa is the whole run
    have stop : ∀ c ∈ (mark :: digits ++ more).head?, isNumeral c = false := by
      rintro c ⟨⟩
      have head := he.head mark rfl
      simp [isNumeral, head]
    have run : (m ++ (mark :: digits ++ more)).takeWhile isNumeral = m :=
      takeWhile_append_of_head numeral stop
    rw [List.append_assoc, run, List.drop_left]
    exact Nat.add_le_add_left (length_le_exponentLength he (List.prefix_append _ more)) _

theorem isLongest_number {c : Char} (h : isNumeral c = true) (rest : List Char) :
    IsLongest ((c :: rest).take (numberLength (c :: rest)))
      ((c :: rest).drop (numberLength (c :: rest))) := by
  obtain ⟨m, power, hnumber⟩ := exists_isNumber_take h rest
  refine ⟨.number hnumber, fun l' hl' begins => ?_⟩
  rw [List.take_append_drop] at begins
  rw [List.length_take]
  refine Nat.le_min.mpr ⟨?_, begins.length_le⟩
  obtain ⟨c', more, rfl, -⟩ := hl'.cases_head
  obtain ⟨rfl, -⟩ := List.cons_prefix_cons.mp begins
  obtain ⟨m', power', hnumber'⟩ := hl'.exists_isNumber h
  exact hnumber'.length_le begins

/-! ### What the scanner finds -/

/-- **The value of a number lexeme** is that of its parts, if it has one. -/
theorem numberValue?_eq_some_iff {l m : List Char} {power : Int} {v : Float}
    (h : IsNumber l m power) :
    numberValue? l = some v ↔
      (∃ c ∈ m, c.isDigit = true) ∧ m.count '.' ≤ 1 ∧
        (Decimal.ofParts m power).toFloat = v ∧ v.isFinite = true := by
  obtain ⟨hm, he⟩ := h
  rw [numberValue?, Option.filter_eq_some_iff, Option.map_eq_some_iff]
  simp only [Decimal.ofLiteral?_eq_some_iff hm.numeral he]
  constructor
  · rintro ⟨⟨d, ⟨digit, point, rfl⟩, rfl⟩, finite⟩
    exact ⟨digit, point, rfl, finite⟩
  · rintro ⟨digit, point, rfl, finite⟩
    exact ⟨⟨_, ⟨digit, point, rfl⟩, rfl⟩, finite⟩

theorem denotes_of_numberValue? {l m : List Char} {power : Int} {v : Float}
    (h : IsNumber l m power) (read : numberValue? l = some v) : Denotes l (.number v) := by
  obtain ⟨digit, point, rfl, finite⟩ := (numberValue?_eq_some_iff h).mp read
  exact .number h digit point finite

/-- What the scanner does where a digit or a point stands. -/
theorem lexeme_of_isNumeral {c : Char} {more rest : List Char} (column : Nat)
    (hc : isNumeral c = true) (h : IsLongest (c :: more) rest) :
    lexeme column c (more ++ rest) =
      match numberValue? (c :: more) with
      | some v => .ok (.number v, more.length)
      | none => .error (.invalidNumber (String.ofList (c :: more)) column) := by
  obtain ⟨literal, -⟩ :=
    (isLongest_number hc (more ++ rest)).unique h (List.take_append_drop _ _)
  have length : numberLength (c :: (more ++ rest)) = more.length + 1 := by
    rw [← List.length_cons, ← literal, List.length_take]
    exact (Nat.min_eq_left (numberLength_le _)).symm
  rw [lexeme, (ofChar?_eq_none (.inr hc)).1]
  simp only [hc, if_true]
  rw [literal, length]
  rfl

/-- What the scanner does where a letter stands. -/
theorem lexeme_of_isNameStart {c : Char} {more rest : List Char} (column : Nat)
    (hc : isNameStart c = true) (h : IsLongest (c :: more) rest) :
    lexeme column c (more ++ rest) = .ok (.name (String.ofList (c :: more)), more.length) := by
  obtain ⟨hpart, hnumeral⟩ := isNumeral_of_isNameStart hc
  have whole : (c :: (more ++ rest).takeWhile isNamePart) ++ (more ++ rest).dropWhile isNamePart =
      c :: more ++ rest := by
    rw [List.cons_append, List.takeWhile_append_dropWhile, List.cons_append]
  obtain ⟨letters, -⟩ := (isLongest_name hc (more ++ rest)).unique h whole
  obtain ⟨-, run⟩ := List.cons.inj letters
  rw [lexeme, (ofChar?_eq_none (.inl hpart)).1]
  simp only [hnumeral, hc, if_true, run]
  rfl

/-- **A longest lexeme is found** by the scanner, with the token that it denotes. -/
theorem lexeme_eq_ok {c : Char} {more rest : List Char} {k : Kind} (column : Nat)
    (h : IsLongest (c :: more) rest) (hk : Denotes (c :: more) k) :
    lexeme column c (more ++ rest) = .ok (k, more.length) := by
  generalize hl : c :: more = l at h hk
  rcases hk with hsymbol | hname | ⟨hnumber, digit, point, finite⟩
  · obtain ⟨rfl, rfl⟩ := List.cons.inj hl
    rw [lexeme, mem_symbols_iff.mp hsymbol]
    rfl
  · subst hl
    exact lexeme_of_isNameStart column (Bool.and_eq_true_iff.mp hname).1 h
  · subst hl
    obtain ⟨c, more, ⟨⟩, hc⟩ := hnumber.exists_cons
    have read := (numberValue?_eq_some_iff hnumber).mpr ⟨digit, point, rfl, finite⟩
    rw [lexeme_of_isNumeral column hc h, read]

end Token

end CurvePlot
