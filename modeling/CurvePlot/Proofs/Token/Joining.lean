import CurvePlot.Proofs.Expr.Spacing

/-!
# Texts joined by a separator

The scanner may look far ahead of a lexeme: whether the `e` of `2e+3` belongs to the number is not
known before the digit behind the sign. It never looks beyond a **separator**, since no lexeme has one
in it. So a cut of a text is a cut of the text with a separator and anything else after it
(`Cut.append_separator`), and it is stuck where it was stuck (`Stuck.append_separator`).

Nor does it look back. A cut of what is left of a text goes on with a cut of the text, and its tokens
are moved by the characters that had been cut before (`Cut.trans`). So of two texts that a separator
joins, the tokens are those of the one and then those of the other, moved to where that text begins;
what is wrong with the first is wrong with both, and what is wrong with the second only is wrong with
both at the column that it is moved to (`scan_push_append`).
-/

namespace CurvePlot

namespace Token

variable {text done rest : List Char} {tokens : List Token} {w : Char}

/-! ### What comes after a text -/

/-- What has no separator in it does not go beyond a separator. -/
theorem prefix_of_prefix_append_separator (hw : w ∈ separators) {l more : List Char}
    (solid : ∀ c ∈ l, c ∉ separators) (h : l <+: rest ++ w :: more) : l <+: rest := by
  rcases Nat.le_total l.length rest.length with short | long
  · exact List.prefix_of_prefix_length_le h (List.prefix_append rest _) short
  · obtain ⟨beyond, rfl⟩ := List.prefix_of_prefix_length_le (List.prefix_append rest _) h long
    have hbeyond := (List.prefix_append_right_inj rest).mp h
    cases beyond with
    | nil => simp
    | cons c beyond =>
      obtain ⟨rfl, -⟩ := List.cons_prefix_cons.mp hbeyond
      exact absurd hw (solid c (List.mem_append_right rest List.mem_cons_self))

theorem IsLongest.append_separator {l : List Char} (h : IsLongest l rest) (hw : w ∈ separators)
    (more : List Char) : IsLongest l (rest ++ w :: more) :=
  h.of_solid fun _ solid begins => prefix_of_prefix_append_separator hw solid begins

/-- **A cut stays a cut** when a separator and anything else comes after the text. -/
theorem Cut.append_separator (h : Cut text done tokens rest) (hw : w ∈ separators)
    (more : List Char) : Cut (text ++ w :: more) done tokens (rest ++ w :: more) := by
  induction h with
  | start => exact .start
  | separator _ hc ih => exact ih.separator hc
  | lexeme _ longest hk ih =>
    rw [List.append_assoc] at ih
    exact ih.lexeme (longest.append_separator hw more) hk

/-- **What is stuck stays stuck**, too, for the same cause. -/
theorem Stuck.append_separator {column : Nat} {cause : ParseError}
    (h : Stuck column rest cause) (hw : w ∈ separators) (more : List Char) :
    Stuck column (rest ++ w :: more) cause := by
  cases h with
  | number hc longest senseless =>
    rw [List.append_assoc]
    exact .number hc (longest.append_separator hw more) senseless
  | character hc separator none =>
    refine .character hc separator ?_
    intro l hl begins
    exact none l hl (prefix_of_prefix_append_separator hw hl.not_mem_separators begins)

/-! ### What comes before a text -/

/-- **A cut goes on with a cut of what is left.** The tokens of that are moved by the characters that
had been cut before. -/
theorem Cut.trans {done' rest' : List Char} {tokens' : List Token} (h : Cut text done tokens rest)
    (h' : Cut rest done' tokens' rest') :
    Cut text (done ++ done') (tokens ++ tokens'.map (relocate (· + done.length))) rest' := by
  induction h' with
  | start => simpa using h
  | separator _ hc ih =>
    rw [← List.append_assoc]
    exact ih.separator hc
  | @lexeme done' l rest' tokens' k _ longest hk ih =>
    have cut := ih.lexeme longest hk
    have hcolumn : (done ++ done').length + 1 = done'.length + 1 + done.length := by
      rw [List.length_append]
      omega
    rw [hcolumn] at cut
    simpa [relocate] using cut

/-- The cause for which a text is stuck is the same wherever the text stands. -/
theorem Stuck.relocate {column : Nat} {cause : ParseError} (h : Stuck column rest cause)
    (f : Nat → Nat) : Stuck (f column) rest (cause.relocate f) := by
  cases h with
  | number hc longest senseless => exact .number hc longest senseless
  | character hc separator none => exact .character hc separator none

/-! ### Two texts -/

/-- **Texts joined by a separator are scanned one after the other.** If both have tokens, these are the
tokens of the two, those of the second moved by the characters before it. If the first has none, the
two are refused for its cause; if only the second has none, for that of the second, with its column
moved in the same way. -/
theorem scan_push_append (hw : w ∈ separators) (first second : String) :
    (∀ tokens tokens', scan first = .ok tokens → scan second = .ok tokens' →
      scan (first.push w ++ second) =
        .ok (tokens ++ tokens'.map (relocate (· + (first.length + 1))))) ∧
    (∀ cause, scan first = .error cause → scan (first.push w ++ second) = .error cause) ∧
    (∀ tokens cause, scan first = .ok tokens → scan second = .error cause →
      scan (first.push w ++ second) =
        .error (cause.relocate (· + (first.length + 1)))) := by
  have whole : scan (first.push w ++ second) =
      scanFrom 1 [] (first.toList ++ w :: second.toList) := by
    simp [scan]
  have hlength : (first.toList ++ [w]).length = first.length + 1 := by
    rw [List.length_append, String.length_toList, List.length_singleton]
  rw [whole, ← hlength]
  -- if the first text has tokens, a cut comes to the second
  have reached {tokens : List Token} (hfirst : scan first = .ok tokens) :
      Cut (first.toList ++ w :: second.toList) (first.toList ++ [w]) tokens second.toList :=
    ((cut_of_scan hfirst).append_separator hw second.toList).separator hw
  refine ⟨?_, ?_, ?_⟩
  · intro tokens tokens' hfirst hsecond
    exact ((reached hfirst).trans (cut_of_scan hsecond)).scanFrom_eq_ok
  · intro cause hfirst
    obtain ⟨done, tokens, rest, hcut, hstuck⟩ := exists_stuck_of_scan hfirst
    have cut := hcut.append_separator hw second.toList
    exact cut.scanFrom_eq_error (hstuck.append_separator hw second.toList)
  · intro tokens cause hfirst hsecond
    obtain ⟨done, tokens', rest, hcut, hstuck⟩ := exists_stuck_of_scan hsecond
    have cut := (reached hfirst).trans hcut
    have stuck := hstuck.relocate (· + (first.toList ++ [w]).length)
    refine cut.scanFrom_eq_error ?_
    rwa [List.length_append, Nat.add_comm _ done.length, Nat.add_right_comm]

/-- A tab ends the number of `2e` before the sign of `+3` comes, and no lexeme that is wrong goes on
behind a space. -/
theorem scan_push_append_mark :
    scan ("2e".push '\t' ++ "+3") =
        .ok [⟨.number 2, 1⟩, ⟨.name "e", 2⟩, ⟨.plus, 4⟩, ⟨.number 3, 5⟩] ∧
      scan ("1..".push ' ' ++ "5%") = .error (.invalidNumber "1.." 1) ∧
      scan ("2e".push '\n' ++ "+%") = .error (.unexpectedCharacter '%' 5) := by
  have mark : scan "2e" = .ok [⟨.number 2, 1⟩, ⟨.name "e", 2⟩] := by decide +kernel
  have three : scan "+3" = .ok [⟨.plus, 1⟩, ⟨.number 3, 2⟩] := by decide +kernel
  have points : scan "1.." = .error (.invalidNumber "1.." 1) := by decide +kernel
  have percent : scan "+%" = .error (.unexpectedCharacter '%' 2) := by decide +kernel
  refine ⟨?_, ?_, ?_⟩
  · exact (scan_push_append (by decide) "2e" "+3").1 _ _ mark three
  · exact (scan_push_append (by decide) "1.." "5%").2.1 _ points
  · exact (scan_push_append (by decide) "2e" "+%").2.2 _ _ mark percent

end Token

end CurvePlot
