import CurvePlot.Proofs.Token.Lexemes

/-!
# Cutting a text

A text is **cut** from left to right: separators are passed over, and the longest lexeme is cut off
and gives the token that it denotes. `Cut text done tokens rest` says how far one has come, so a text
is a list of tokens if it can be cut to its end. A cut is **stuck** where no token begins, and each
cut that is not stuck goes on or has come to the end (`exists_step`). Since the scanner follows every
cut (`Cut.scanFrom_eq`), it gives the tokens of a text that can be cut to its end, and for every
other text the fault at which its cut is stuck (`scan_iff_cut`).
-/

namespace CurvePlot

namespace Token

/-- The characters that may stand between two tokens. -/
def separators : List Char :=
  [' ', '\t', '\n', '\x0c', '\r']

theorem mem_separators_iff {c : Char} : c ∈ separators ↔ Text.isSeparator c = true := by
  simp [separators, Text.isSeparator, or_assoc]

/-- A text is **cut**: its characters `done` have given the tokens `tokens`, and `rest` is left. -/
inductive Cut (text : List Char) : (done : List Char) → (tokens : List Token) →
    (rest : List Char) → Prop
  | start : Cut text [] [] text
  /-- A separator gives nothing. -/
  | separator {done rest : List Char} {tokens : List Token} {c : Char}
      (h : Cut text done tokens (c :: rest)) (hc : c ∈ separators) :
      Cut text (done ++ [c]) tokens rest
  /-- The longest lexeme gives its token, at the column of its first character. -/
  | lexeme {done l rest : List Char} {tokens : List Token} {k : Kind}
      (h : Cut text done tokens (l ++ rest)) (longest : IsLongest l rest) (hk : Denotes l k) :
      Cut text (done ++ l) (tokens ++ [⟨k, done.length + 1⟩]) rest

/-- No token begins at the head of a text, for a given cause. -/
inductive Stuck (column : Nat) : List Char → ParseError → Prop
  /-- A digit or a point stands there, but the longest lexeme denotes nothing. -/
  | number {c : Char} {more rest : List Char} (hc : c.isDigit = true ∨ c = '.')
      (longest : IsLongest (c :: more) rest) (senseless : ∀ k, ¬Denotes (c :: more) k) :
      Stuck column (c :: more ++ rest) (.invalidNumber (String.ofList (c :: more)) column)
  /-- Any other character stands there, and no lexeme begins with it. -/
  | character {c : Char} {rest : List Char} (hc : ¬(c.isDigit = true ∨ c = '.'))
      (separator : c ∉ separators) (none : ∀ l, IsLexeme l → ¬l <+: c :: rest) :
      Stuck column (c :: rest) (.unexpectedCharacter c column)

variable {text done rest : List Char} {tokens : List Token}

/-! ### How a cut goes on -/

theorem Cut.append_eq (h : Cut text done tokens rest) : done ++ rest = text := by
  induction h with
  | start => rfl
  | separator _ _ ih => rw [List.append_assoc, List.singleton_append, ih]
  | lexeme _ _ _ ih => rw [List.append_assoc, ih]

/-- Where a digit or a point stands, the longest lexeme is a number, or the cut is stuck. -/
theorem denotes_or_stuck_of_isNumeral (column : Nat) {c : Char} (hc : isNumeral c = true)
    (rest : List Char) :
    (∃ l rest' k, c :: rest = l ++ rest' ∧ IsLongest l rest' ∧ Denotes l k) ∨
      ∃ cause, Stuck column (c :: rest) cause := by
  obtain ⟨m, power, hnumber⟩ := exists_isNumber_take hc rest
  have longest := isLongest_number hc rest
  have whole := List.take_append_drop (numberLength (c :: rest)) (c :: rest)
  obtain ⟨d, more, hl, -⟩ := hnumber.exists_cons
  rw [hl] at hnumber longest whole
  obtain ⟨rfl, hrest⟩ := List.cons.inj whole
  rw [← hrest]
  rcases hvalue : numberValue? (d :: more) with _ | v
  · refine .inr ⟨_, .number (isNumeral_iff.mp hc) longest fun k hk => ?_⟩
    -- had it a token, the scanner would find it
    have found := lexeme_eq_ok column longest hk
    rw [lexeme_of_isNumeral column hc longest, hvalue] at found
    exact absurd found (by simp)
  · exact .inl ⟨_, _, _, rfl, longest, denotes_of_numberValue? hnumber hvalue⟩

/-- At the head of every text that is not at its end stands a separator, a lexeme that denotes a
token, or a fault. -/
theorem exists_step (column : Nat) (c : Char) (rest : List Char) :
    c ∈ separators ∨
      (∃ l rest' k, c :: rest = l ++ rest' ∧ IsLongest l rest' ∧ Denotes l k) ∨
      ∃ cause, Stuck column (c :: rest) cause := by
  by_cases hseparator : c ∈ separators
  · exact .inl hseparator
  refine .inr ?_
  by_cases hnumeral : isNumeral c = true
  · exact denotes_or_stuck_of_isNumeral column hnumeral rest
  by_cases hstart : isNameStart c = true
  · have name : isName (c :: rest.takeWhile isNamePart) = true := by
      simp [isName, hstart]
    refine .inl ⟨_, _, _, ?_, isLongest_name hstart rest, .name name⟩
    rw [List.cons_append, List.takeWhile_append_dropWhile]
  rcases hsymbol : Kind.ofChar? c with _ | k
  · refine .inr ⟨_, .character (isNumeral_iff.not.mp hnumeral) hseparator fun l hl begins => ?_⟩
    obtain ⟨c', more, rfl, hcases⟩ := hl.cases_head
    obtain ⟨rfl, -⟩ := List.cons_prefix_cons.mp begins
    rcases hcases with ⟨k, hk, -⟩ | ⟨hc, -⟩ | ⟨hc, -⟩
    · rw [hsymbol] at hk
      exact absurd hk (by simp)
    · exact hstart hc
    · exact hnumeral hc
  · exact .inl ⟨[c], rest, k, rfl, isLongest_symbol hsymbol rest,
      .symbol (mem_symbols_iff.mpr hsymbol)⟩

/-- Every cut goes on until it is at the end of the text, or stuck. -/
theorem Cut.exists_end (h : Cut text done tokens rest) :
    (∃ tokens', Cut text text tokens' []) ∨ ∃ done' tokens' rest' cause,
      Cut text done' tokens' rest' ∧ Stuck (done'.length + 1) rest' cause := by
  induction hn : rest.length using Nat.strong_induction_on generalizing done tokens rest with
  | _ n ih =>
    rcases rest with _ | ⟨c, rest⟩
    · have whole := h.append_eq
      rw [List.append_nil] at whole
      exact .inl ⟨tokens, whole ▸ h⟩
    rcases exists_step (done.length + 1) c rest with
      hc | ⟨l, rest', k, hl, longest, hk⟩ | ⟨cause, stuck⟩
    · exact ih rest.length (by simp [← hn]) (h.separator hc) rfl
    · rw [hl] at h hn
      obtain ⟨d, more, rfl, -⟩ := longest.isLexeme.cases_head
      have shorter : rest'.length < n := by
        rw [← hn, List.length_append]
        exact Nat.lt_add_of_pos_left (Nat.succ_pos _)
      exact ih rest'.length shorter (h.lexeme longest hk) rfl
    · exact .inr ⟨done, tokens, c :: rest, cause, h, stuck⟩

/-! ### The scanner follows -/

/-- **The scanner follows every cut.** -/
theorem Cut.scanFrom_eq (h : Cut text done tokens rest) :
    scanFrom 1 [] text = scanFrom (done.length + 1) tokens.reverse rest := by
  induction h with
  | start => rfl
  | separator _ hc ih =>
    rw [ih, scanFrom, if_pos (mem_separators_iff.mp hc), List.length_append]
    rfl
  | @lexeme done l rest tokens k _ longest hk ih =>
    obtain ⟨c, more, rfl, -⟩ := longest.isLexeme.cases_head
    have hc : ¬Text.isSeparator c = true := by
      rw [isSeparator_of_isLexeme longest.isLexeme]
      decide
    rw [ih, List.cons_append, scanFrom, if_neg hc, lexeme_eq_ok _ longest hk]
    simp only [List.drop_left, List.reverse_append, List.reverse_singleton, List.singleton_append,
      List.length_append, List.length_cons]
    congr 1
    omega

/-- Where a cut is stuck, so is the scanner, for the same cause. -/
theorem Stuck.scanFrom_eq {column : Nat} {cause : ParseError} (h : Stuck column rest cause)
    (found : List Token) : scanFrom column found rest = .error cause := by
  rcases h with ⟨hc, longest, senseless⟩ | ⟨hc, hseparator, hnone⟩
  · rename_i c more rest
    have hnumeral := isNumeral_iff.mpr hc
    obtain ⟨m, power, hnumber⟩ := longest.isLexeme.exists_isNumber hnumeral
    have hvalue : numberValue? (c :: more) = none := by
      rw [Option.eq_none_iff_forall_ne_some]
      exact fun v hv => senseless _ (denotes_of_numberValue? hnumber hv)
    rw [List.cons_append, scanFrom, if_neg (by simp [(ofChar?_eq_none (.inr hnumeral)).2]),
      lexeme_of_isNumeral column hnumeral longest, hvalue]
  · rename_i c rest
    have hsymbol : Kind.ofChar? c = none := by
      rw [Option.eq_none_iff_forall_ne_some]
      exact fun k hk => hnone _ (.symbol (mem_symbols_iff.mpr hk)) (by simp)
    have hstart : ¬isNameStart c = true := fun hstart =>
      hnone [c] (.name (by simp [isName, hstart])) (by simp)
    rw [scanFrom, if_neg (mem_separators_iff.not.mp hseparator), lexeme, hsymbol]
    simp only [if_neg (isNumeral_iff.not.mpr hc), if_neg hstart]

/-! ### Cutting a part of a text -/

/-- What has been cut of a text is cut the same way if less comes after it. -/
theorem Cut.of_prefix (h : Cut text done tokens rest) {rest' : List Char} (part : rest' <+: rest) :
    Cut (done ++ rest') done tokens rest' := by
  induction h generalizing rest' with
  | start => exact .start
  | @separator done rest tokens c _ hc ih =>
    have cut := ih (List.cons_prefix_cons.mpr ⟨rfl, part⟩)
    rw [List.append_assoc, List.singleton_append]
    exact cut.separator hc
  | @lexeme done l rest tokens k _ longest hk ih =>
    have cut := ih ((List.prefix_append_right_inj l).mpr part)
    rw [List.append_assoc]
    exact cut.lexeme (longest.of_prefix part) hk

/-- A text that is cut to its end is scanned. -/
theorem Cut.scanFrom_eq_ok (h : Cut text done tokens []) : scanFrom 1 [] text = .ok tokens := by
  rw [h.scanFrom_eq, scanFrom, List.reverse_reverse]

/-- A text whose cut is stuck is refused, for the same cause. -/
theorem Cut.scanFrom_eq_error (h : Cut text done tokens rest) {cause : ParseError}
    (stuck : Stuck (done.length + 1) rest cause) : scanFrom 1 [] text = .error cause := by
  rw [h.scanFrom_eq, stuck.scanFrom_eq]

/-- Every token of a cut is that of a whole lexeme, which had been cut off at its column. -/
theorem Cut.exists_lexeme_of_mem (h : Cut text done tokens rest) {t : Token} (ht : t ∈ tokens) :
    ∃ done' found l rest', Cut text done' found (l ++ rest') ∧ IsLongest l rest' ∧
      Denotes l t.kind ∧ t.column = done'.length + 1 := by
  induction h with
  | start => simp at ht
  | separator _ _ ih => exact ih ht
  | @lexeme done l rest tokens k h longest hk ih =>
    rcases List.mem_append.mp ht with ht | ht
    · exact ih ht
    · obtain rfl := List.mem_singleton.mp ht
      exact ⟨done, tokens, l, rest, h, longest, hk, rfl⟩

/-- The scanner comes to the end of a text with a cut, or fails where a cut is stuck. -/
theorem scan_cases (source : String) :
    (∃ tokens, scan source = .ok tokens ∧ Cut source.toList source.toList tokens []) ∨
      ∃ done tokens rest cause, scan source = .error cause ∧
        Cut source.toList done tokens rest ∧ Stuck (done.length + 1) rest cause := by
  rcases Cut.exists_end (.start : Cut source.toList [] [] source.toList) with
    ⟨tokens, hcut⟩ | ⟨done, tokens, rest, cause, hcut, hstuck⟩
  · exact .inl ⟨tokens, hcut.scanFrom_eq_ok, hcut⟩
  · exact .inr ⟨done, tokens, rest, cause, hcut.scanFrom_eq_error hstuck, hcut, hstuck⟩

/-- The tokens of a text are those of a cut to its end. -/
theorem cut_of_scan {source : String} (h : scan source = .ok tokens) :
    Cut source.toList source.toList tokens [] := by
  rcases scan_cases source with ⟨tokens', hscan, hcut⟩ | ⟨_, _, _, _, hscan, -, -⟩
  · obtain rfl : tokens' = tokens := Except.ok.inj (hscan.symm.trans h)
    exact hcut
  · rw [hscan] at h
    cases h

/-- The cause for which a text is refused is one for which a cut of it is stuck. -/
theorem exists_stuck_of_scan {source : String} {cause : ParseError}
    (h : scan source = .error cause) : ∃ done tokens rest,
      Cut source.toList done tokens rest ∧ Stuck (done.length + 1) rest cause := by
  rcases scan_cases source with ⟨_, hscan, -⟩ | ⟨done, tokens, rest, cause', hscan, hcut, hstuck⟩
  · rw [hscan] at h
    cases h
  · obtain rfl : cause' = cause := Except.error.inj (hscan.symm.trans h)
    exact ⟨done, tokens, rest, hcut, hstuck⟩

/-- **The scanner cuts a text at its longest lexemes.** It gives tokens exactly if the text can be cut
to its end, and they are those of the cut. Otherwise the cut is stuck somewhere, and the scanner gives
the cause: a number lexeme that denotes nothing, or a character that begins no lexeme. What had been
cut until then gives the tokens of that part of the text. -/
theorem scan_iff_cut (source : String) :
    (∀ tokens, scan source = .ok tokens ↔ Cut source.toList source.toList tokens []) ∧
    (∀ cause, scan source = .error cause ↔ ∃ done tokens rest,
      Cut source.toList done tokens rest ∧ Stuck (done.length + 1) rest cause) ∧
    (∀ done tokens rest, Cut source.toList done tokens rest →
      source.toList = done ++ rest ∧ scan (String.ofList done) = .ok tokens) := by
  have hend := Cut.exists_end (.start : Cut source.toList [] [] source.toList)
  have stuck {done tokens rest cause} (hcut : Cut source.toList done tokens rest)
      (hstuck : Stuck (done.length + 1) rest cause) : scan source = .error cause := by
    rw [scan, hcut.scanFrom_eq, hstuck.scanFrom_eq]
  refine ⟨fun tokens => ⟨fun h => ?_, fun h => h.scanFrom_eq_ok⟩, fun cause => ⟨fun h => ?_, ?_⟩,
    fun done tokens rest h => ⟨h.append_eq.symm, ?_⟩⟩
  · rcases hend with ⟨tokens', hcut⟩ | ⟨done, tokens', rest, cause, hcut, hstuck⟩
    · have same : scan source = .ok tokens' := hcut.scanFrom_eq_ok
      rw [h] at same
      rwa [Except.ok.inj same]
    · rw [stuck hcut hstuck] at h
      exact absurd h (by simp)
  · rcases hend with ⟨tokens', hcut⟩ | ⟨done, tokens', rest, cause', hcut, hstuck⟩
    · have scanned : scan source = .ok tokens' := hcut.scanFrom_eq_ok
      rw [h] at scanned
      exact absurd scanned (by simp)
    · have same := stuck hcut hstuck
      rw [h] at same
      exact ⟨done, tokens', rest, hcut, Except.error.inj same ▸ hstuck⟩
  · rintro ⟨done, tokens, rest, hcut, hstuck⟩
    exact stuck hcut hstuck
  · have part := h.of_prefix (List.nil_prefix)
    rw [List.append_nil] at part
    rw [scan, String.toList_ofList]
    exact part.scanFrom_eq_ok

/-- A mark that no digit follows is left to the next lexeme. -/
example : scan "2e+" = .ok [⟨.number 2, 1⟩, ⟨.name "e", 2⟩, ⟨.plus, 3⟩] := by
  decide +kernel

end Token

end CurvePlot
