import CurvePlot.Proofs.Token.Cutting

/-!
# More space between tokens

Separators may be put into a text anywhere but **inside of a lexeme** (`Spacing`). The lexemes are
cut off at their longest, and what comes after one of them decides how long it is: `2e+3` is one
number and `2e+` is three tokens. But no lexeme has a separator in it, so what could be cut off after
separators were put into a text could be cut off before (`prefix_of_prefix_spreadFrom`), and the
longest lexemes stay the longest. So a cut of the text goes along with a cut of the text with more
space (`Cut.spread`): it has the same tokens, and each of them moves by what was put in front of it.
-/

namespace CurvePlot

namespace Token

/-! ### No lexeme has a separator in it -/

/-- The characters that lexemes are made of. -/
theorem isSeparator_of_inLexeme {c : Char}
    (h : isNamePart c = true ∨ isNumeral c = true ∨ ∃ k, Kind.ofChar? c = some k) :
    Text.isSeparator c = false := by
  rcases h with h | h | ⟨k, h⟩
  · exact (ofChar?_eq_none (.inl h)).2
  · exact (ofChar?_eq_none (.inr h)).2
  · exact (ofChar?_eq_some h).1

theorem isSeparator_of_mem_exponentPart {e : List Char} {power : ℤ}
    (h : Decimal.ExponentPart e power) : ∀ c ∈ e, Text.isSeparator c = false := by
  have mark {c : Char} (hc : c = 'e' ∨ c = 'E') : Text.isSeparator c = false := by
    rcases hc with rfl | rfl <;> exact isSeparator_of_inLexeme (.inl rfl)
  have digit {c : Char} (hc : c.isDigit = true) : Text.isSeparator c = false :=
    isSeparator_of_inLexeme (.inr (.inl (isNumeral_iff.mpr (.inl hc))))
  cases h with
  | absent => simp
  | unsigned hmark _ digits =>
    simp only [List.mem_cons]
    rintro c (rfl | hc)
    · exact mark hmark
    · exact digit (digits c hc)
  | positive hmark _ digits | negative hmark _ digits =>
    simp only [List.mem_cons]
    rintro c (rfl | rfl | hc)
    · exact mark hmark
    · exact isSeparator_of_inLexeme (.inr (.inr ⟨_, rfl⟩))
    · exact digit (digits c hc)

theorem IsLexeme.isSeparator_of_mem {l : List Char} (h : IsLexeme l) :
    ∀ c ∈ l, Text.isSeparator c = false := by
  rcases h with h | h | ⟨hm, he⟩
  · rintro c hc
    obtain rfl := List.mem_singleton.mp hc
    exact isSeparator_of_inLexeme (.inr (.inr ⟨_, mem_symbols_iff.mp h⟩))
  · rcases l with _ | ⟨c, more⟩
    · exact absurd h (by decide)
    · obtain ⟨hstart, hmore⟩ := Bool.and_eq_true_iff.mp h
      intro d hd
      rcases List.mem_cons.mp hd with rfl | hd
      · exact isSeparator_of_inLexeme (.inl (isNumeral_of_isNameStart hstart).1)
      · exact isSeparator_of_inLexeme (.inl (List.all_eq_true.mp hmore d hd))
  · intro c hc
    rcases List.mem_append.mp hc with hc | hc
    · exact isSeparator_of_inLexeme (.inr (.inl (isNumeral_iff.mpr (hm.numeral c hc))))
    · exact isSeparator_of_mem_exponentPart he c hc

theorem IsLexeme.ne_nil {l : List Char} (h : IsLexeme l) : l ≠ [] := by
  obtain ⟨c, more, rfl, -⟩ := h.cases_head
  exact List.cons_ne_nil c more

theorem IsLexeme.not_mem_separators {l : List Char} (h : IsLexeme l) :
    ∀ c ∈ l, c ∉ separators := by
  intro c hc hseparator
  rw [mem_separators_iff, h.isSeparator_of_mem c hc] at hseparator
  exact absurd hseparator (by decide)

/-- **The longest lexeme stays the longest** if nothing without a separator in it can be found in what
comes after it that could not be found there before. -/
theorem IsLongest.of_solid {l rest rest' : List Char} (h : IsLongest l rest)
    (found : ∀ more, (∀ c ∈ more, c ∉ separators) → more <+: rest' → more <+: rest) :
    IsLongest l rest' := by
  refine ⟨h.isLexeme, fun l' hl' begins => ?_⟩
  rcases Nat.le_total l'.length l.length with short | long
  · exact short
  -- a longer lexeme would go on into what comes after
  obtain ⟨more, rfl⟩ := List.prefix_of_prefix_length_le (List.prefix_append l _) begins long
  have solid : ∀ c ∈ more, c ∉ separators := fun c hc =>
    hl'.not_mem_separators c (List.mem_append_right l hc)
  have hmore := found more solid ((List.prefix_append_right_inj l).mp begins)
  exact h.length_le _ hl' ((List.prefix_append_right_inj l).mpr hmore)

/-! ### Putting separators into a text -/

/-- A position is **inside of a lexeme** of a text: when the text is cut from its beginning, a lexeme
is cut off that begins before the position and ends behind it. -/
def InsideLexeme (text : List Char) (i : Nat) : Prop :=
  ∃ done found l rest, Cut text done found (l ++ rest) ∧ IsLongest l rest ∧
    done.length < i ∧ i < done.length + l.length

/-- **Cuts never overlap**: where one has come to is inside of no lexeme. -/
theorem Cut.not_insideLexeme {text done rest : List Char} {tokens : List Token}
    (h : Cut text done tokens rest) : ¬InsideLexeme text done.length := by
  rintro ⟨done', found, l, rest', h', longest, above, below⟩
  -- one of the two cuts is taken back by a step, which may exchange them
  induction hn : done.length + done'.length using Nat.strong_induction_on
    generalizing done tokens rest done' found l rest' with
  | _ n ih =>
    have same {d r : List Char} (hcut : d ++ r = text) (hlength : d.length = done'.length) :
        r = l ++ rest' :=
      (List.append_inj (hcut.trans h'.append_eq.symm) hlength).2
    cases h with
    | start => exact absurd above (Nat.not_lt_zero _)
    | @separator d _ _ c h₀ hc =>
      rw [List.length_append, List.length_singleton] at above below hn
      rcases Nat.lt_or_ge done'.length d.length with inside | outside
      · exact ih _ (by omega) h₀ _ _ _ _ h' longest inside (by omega) rfl
      · obtain ⟨c', more, rfl, -⟩ := longest.isLexeme.cases_head
        obtain ⟨rfl, -⟩ := List.cons.inj (same h₀.append_eq (by omega))
        exact absurd hc (longest.isLexeme.not_mem_separators c List.mem_cons_self)
    | @lexeme d l₀ _ _ _ h₀ longest₀ _ =>
      rw [List.length_append] at above below hn
      have shorter := List.length_pos_iff.mpr longest₀.isLexeme.ne_nil
      rcases Nat.lt_trichotomy d.length done'.length with before | equal | inside
      · exact ih _ (by omega) h' _ _ _ _ h₀ longest₀ before above rfl
      · obtain ⟨rfl, -⟩ := longest₀.unique longest (same h₀.append_eq equal)
        omega
      · exact ih _ (by omega) h₀ _ _ _ _ h' longest inside (by omega) rfl

/-- Separators to be put in front of the positions of a source, or at its end, but **inside of no
lexeme**. -/
structure Spacing (source : String) where
  /-- What is put in front of a position. -/
  gap : Nat → List Char
  separator : ∀ i, ∀ c ∈ gap i, c ∈ separators
  outside : ∀ i, InsideLexeme source.toList i → gap i = []

namespace Spacing

/-- The characters of a text from a position on, with what is put between them and at the end. -/
def spreadFrom (gap : Nat → List Char) (i : Nat) : List Char → List Char
  | [] => gap i
  | c :: rest => gap i ++ c :: spreadFrom gap (i + 1) rest

/-- How many characters are put in front of the positions below one. -/
def inserted (gap : Nat → List Char) : Nat → Nat
  | 0 => 0
  | i + 1 => inserted gap i + (gap i).length

variable {source : String}

/-- Separators behind what a cut has given tokens of so far. -/
def single {done rest : List Char} {tokens : List Token}
    (h : Cut source.toList done tokens rest) (blank : List Char)
    (separator : ∀ c ∈ blank, c ∈ separators) : Spacing source where
  gap i := if i = done.length then blank else []
  separator i c hc := by
    split at hc
    · exact separator c hc
    · exact absurd hc List.not_mem_nil
  outside i inside := by
    refine if_neg fun here => ?_
    subst here
    exact h.not_insideLexeme inside

variable (s : Spacing source)

/-- The **source with more space**. -/
def text : String :=
  String.ofList (spreadFrom s.gap 0 source.toList)

/-- Where a column of the source is in the source with more space. Columns count from one, so what is
put in front of a column is what is put in front of the position before it, or earlier. -/
def column (column : Nat) : Nat :=
  column + inserted s.gap column

end Spacing

/-- The same token at another column. -/
def relocate (f : Nat → Nat) (t : Token) : Token :=
  ⟨t.kind, f t.column⟩

/-! ### The longest lexemes stay the longest -/

section Spread

variable {gap : Nat → List Char}

/-- What has no separator in it can be found before separators are put into a text, if it can be
found afterwards. -/
theorem prefix_of_prefix_spreadFrom (separator : ∀ i, ∀ c ∈ gap i, c ∈ separators)
    {l rest : List Char} {i : Nat} (solid : ∀ c ∈ l, c ∉ separators)
    (h : l <+: Spacing.spreadFrom gap i rest) : l <+: rest := by
  induction rest generalizing l i with
  | nil =>
    rcases l with _ | ⟨c, l⟩
    · exact List.nil_prefix
    · exact absurd (separator i c (h.subset List.mem_cons_self)) (solid c List.mem_cons_self)
  | cons d rest ih =>
    rcases l with _ | ⟨c, l⟩
    · exact List.nil_prefix
    · rw [Spacing.spreadFrom] at h
      rcases hgap : gap i with _ | ⟨w, ws⟩
      · rw [hgap, List.nil_append, List.cons_prefix_cons] at h
        refine List.cons_prefix_cons.mpr ⟨h.1, ih (fun c hc => ?_) h.2⟩
        exact solid c (List.mem_cons_of_mem _ hc)
      · rw [hgap, List.cons_append, List.cons_prefix_cons] at h
        have hw := separator i w (hgap ▸ List.mem_cons_self)
        exact absurd hw (h.1 ▸ solid c List.mem_cons_self)

/-- **The longest lexeme stays the longest** when separators are put into what comes after it. -/
theorem IsLongest.spreadFrom {l rest : List Char} (h : IsLongest l rest)
    (separator : ∀ i, ∀ c ∈ gap i, c ∈ separators) (i : Nat) :
    IsLongest l (Spacing.spreadFrom gap i rest) :=
  h.of_solid fun _ solid begins => prefix_of_prefix_spreadFrom separator solid begins

end Spread

/-! ### A cut of the text with more space -/

/-- A **run of separators** is passed over. -/
theorem Cut.blank {text done blank rest : List Char} {tokens : List Token}
    (h : Cut text done tokens (blank ++ rest)) (hblank : ∀ c ∈ blank, c ∈ separators) :
    Cut text (done ++ blank) tokens rest := by
  induction blank generalizing done with
  | nil => simpa using h
  | cons c blank ih =>
    have passed := h.separator (hblank c List.mem_cons_self)
    simpa using ih passed fun d hd => hblank d (List.mem_cons_of_mem c hd)

section Solid

variable {gap : Nat → List Char} {l : List Char} {n : Nat}

/-- What nothing is put into has nothing put into its tail. -/
theorem solid_tail {c : Char} (solid : ∀ i, n < i → i < n + (c :: l).length → gap i = []) :
    ∀ i, n + 1 < i → i < n + 1 + l.length → gap i = [] := by
  intro i above below
  refine solid i (Nat.lt_of_succ_lt above) ?_
  rw [List.length_cons]
  omega

/-- Where nothing is put into a piece of the text, the piece stays as it is. -/
theorem spreadFrom_append (hl : l ≠ []) (solid : ∀ i, n < i → i < n + l.length → gap i = [])
    (rest : List Char) :
    Spacing.spreadFrom gap n (l ++ rest) =
      gap n ++ (l ++ Spacing.spreadFrom gap (n + l.length) rest) := by
  induction l generalizing n with
  | nil => exact absurd rfl hl
  | cons c l ih =>
    rw [List.cons_append, Spacing.spreadFrom]
    rcases l with _ | ⟨d, l⟩
    · rfl
    · have hgap : gap (n + 1) = [] := solid (n + 1) (Nat.lt_succ_self n) (by simp)
      have inner := ih (List.cons_ne_nil d l) (solid_tail solid)
      rw [inner, hgap, List.nil_append, List.length_cons, List.length_cons, Nat.succ_add_eq_add_succ]
      rfl

/-- What is put in front of the end of such a piece is put in front of its beginning. -/
theorem inserted_add (hl : l ≠ []) (solid : ∀ i, n < i → i < n + l.length → gap i = []) :
    Spacing.inserted gap (n + l.length) = Spacing.inserted gap n + (gap n).length := by
  induction l generalizing n with
  | nil => exact absurd rfl hl
  | cons c l ih =>
    rcases l with _ | ⟨d, l⟩
    · rfl
    · have hgap : gap (n + 1) = [] := solid (n + 1) (Nat.lt_succ_self n) (by simp)
      have inner := ih (List.cons_ne_nil d l) (solid_tail solid)
      rw [List.length_cons, ← Nat.succ_add_eq_add_succ, Nat.succ_eq_add_one, inner, hgap]
      rfl

end Solid

variable {source : String} (s : Spacing source)

/-- **A cut goes along with a cut of the text with more space.** Its tokens are the same, each of them
moved by what was put in front of it. -/
theorem Cut.spread {done rest : List Char} {tokens : List Token}
    (h : Cut source.toList done tokens rest) :
    ∃ done', done'.length = done.length + Spacing.inserted s.gap done.length ∧
      Cut (Spacing.spreadFrom s.gap 0 source.toList) done' (tokens.map (relocate s.column))
        (Spacing.spreadFrom s.gap done.length rest) := by
  induction h with
  | start => exact ⟨[], rfl, .start⟩
  | @separator done rest tokens c _ hc ih =>
    obtain ⟨done', hlength, hcut⟩ := ih
    have passed := (hcut.blank (s.separator done.length)).separator hc
    refine ⟨_, ?_, by simpa using passed⟩
    simp only [List.length_append, List.length_singleton, hlength, Spacing.inserted]
    omega
  | @lexeme done l rest tokens k h longest hk ih =>
    obtain ⟨done', hlength, hcut⟩ := ih
    have hl := longest.isLexeme.ne_nil
    have solid (i : Nat) (above : done.length < i) (below : i < done.length + l.length) :
        s.gap i = [] :=
      s.outside i ⟨done, tokens, l, rest, h, longest, above, below⟩
    rw [spreadFrom_append hl solid] at hcut
    have passed := hcut.blank (s.separator done.length)
    have cut := passed.lexeme (longest.spreadFrom s.separator _) hk
    have hcolumn : (done' ++ s.gap done.length).length + 1 = s.column (done.length + 1) := by
      simp only [List.length_append, hlength, Spacing.column, Spacing.inserted]
      omega
    refine ⟨done' ++ s.gap done.length ++ l, ?_, ?_⟩
    · simp only [List.length_append, hlength, inserted_add hl solid]
      omega
    · rw [hcolumn] at cut
      simpa [relocate] using cut

/-- **More space gives the same tokens** of a text that has tokens, at the columns that they are moved
to. -/
theorem scan_text_of_scan {tokens : List Token} (scanned : scan source = .ok tokens) :
    scan s.text = .ok (tokens.map (relocate s.column)) := by
  obtain ⟨done', -, spread⟩ := (cut_of_scan scanned).spread s
  rw [Spacing.spreadFrom, ← List.append_nil (s.gap _)] at spread
  have whole := spread.blank (s.separator source.toList.length)
  rw [scan, Spacing.text, String.toList_ofList]
  exact whole.scanFrom_eq_ok

end Token

end CurvePlot
