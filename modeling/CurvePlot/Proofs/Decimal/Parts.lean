import CurvePlot.Decimal.Literal
import Mathlib.Data.List.TakeWhile

/-!
# The parts of a literal

A literal is a **mantissa**, made of digits and points, and then perhaps an exponent. Which decimal
it spells can be said of the parts: the digits of the mantissa without the point, and the exponent
less the number of digits behind the point (`Decimal.ofParts`). A text that is cut this way is a
literal exactly if its mantissa has a digit and no more than one point
(`Decimal.ofLiteral?_eq_some_iff`).
-/

namespace CurvePlot

/-! ### Runs of characters -/

section Runs

variable {p : Char → Bool} {cs rest : List Char}

theorem takeWhile_append_of_head (hcs : ∀ c ∈ cs, p c = true)
    (hrest : ∀ c ∈ rest.head?, p c = false) : (cs ++ rest).takeWhile p = cs := by
  rw [List.takeWhile_append_of_pos hcs]
  cases rest with
  | nil => simp
  | cons c rest => simp [hrest c rfl]

theorem dropWhile_append_of_head (hcs : ∀ c ∈ cs, p c = true)
    (hrest : ∀ c ∈ rest.head?, p c = false) : (cs ++ rest).dropWhile p = rest := by
  rw [List.dropWhile_append_of_pos hcs]
  cases rest with
  | nil => rfl
  | cons c rest => simp [hrest c rfl]

end Runs

namespace Decimal

/-- What may follow a mantissa, and the power of ten that it states: nothing, or a mark, perhaps a
sign, and then at least one digit. -/
inductive ExponentPart : List Char → Int → Prop
  | absent : ExponentPart [] 0
  | unsigned {mark : Char} {digits : List Char} (hmark : mark = 'e' ∨ mark = 'E')
      (nonempty : digits ≠ []) (hdigits : ∀ c ∈ digits, c.isDigit = true) :
      ExponentPart (mark :: digits) (ofDigits digits)
  | positive {mark : Char} {digits : List Char} (hmark : mark = 'e' ∨ mark = 'E')
      (nonempty : digits ≠ []) (hdigits : ∀ c ∈ digits, c.isDigit = true) :
      ExponentPart (mark :: '+' :: digits) (ofDigits digits)
  | negative {mark : Char} {digits : List Char} (hmark : mark = 'e' ∨ mark = 'E')
      (nonempty : digits ≠ []) (hdigits : ∀ c ∈ digits, c.isDigit = true) :
      ExponentPart (mark :: '-' :: digits) (-ofDigits digits)

/-- The decimal of a mantissa with at most one point, times a power of ten. -/
def ofParts (mantissa : List Char) (power : Int) : Decimal where
  digits := ofDigits (mantissa.filter (· ≠ '.'))
  exponent := power - (mantissa.dropWhile (· ≠ '.')).tail.length

variable {ws fs cs : List Char} {power : Int}

/-! ### Reading the exponent -/

theorem wholeDigits?_eq_some (nonempty : cs ≠ []) (hcs : ∀ c ∈ cs, c.isDigit = true) :
    wholeDigits? cs = some (ofDigits cs) := by
  rw [wholeDigits?, if_pos ⟨nonempty, List.all_eq_true.mpr hcs⟩]

theorem ExponentPart.exponent?_eq (h : ExponentPart cs power) : exponent? cs = some power := by
  cases h with
  | absent => rfl
  | unsigned hmark nonempty hdigits =>
    rw [exponent?.eq_def]
    simp only
    rw [if_pos hmark]
    -- the first digit is no sign
    split
    · exact absurd (hdigits _ List.mem_cons_self) (by decide)
    · exact absurd (hdigits _ List.mem_cons_self) (by decide)
    · rw [wholeDigits?_eq_some nonempty hdigits]
      rfl
  | positive hmark nonempty hdigits | negative hmark nonempty hdigits =>
    rw [exponent?, if_pos hmark, wholeDigits?_eq_some nonempty hdigits]
    rfl

/-- No mantissa goes on with an exponent. -/
theorem ExponentPart.head (h : ExponentPart cs power) :
    ∀ c ∈ cs.head?, c.isDigit = false ∧ c ≠ '.' := by
  cases h with
  | absent => simp
  | unsigned hmark | positive hmark | negative hmark =>
    rintro c ⟨⟩
    rcases hmark with rfl | rfl <;> exact ⟨rfl, by decide⟩

/-! ### Reading the mantissa -/

/-- A mantissa without a point. -/
theorem ofLiteral?_digits (hws : ∀ c ∈ ws, c.isDigit = true) (he : ExponentPart cs power) :
    ofLiteral? (ws ++ cs) = if ws = [] then none else some ⟨ofDigits ws, power⟩ := by
  have head := fun c hc => (he.head c hc).1
  have fraction : fractionOf cs = ([], cs) := by
    unfold fractionOf
    split
    · exact absurd rfl (he.head _ rfl).2
    · rfl
  simp [ofLiteral?, takeWhile_append_of_head hws head, dropWhile_append_of_head hws head, fraction,
    he.exponent?_eq]

/-- A mantissa with one point. -/
theorem ofLiteral?_digits_point_digits (hws : ∀ c ∈ ws, c.isDigit = true)
    (hfs : ∀ c ∈ fs, c.isDigit = true) (he : ExponentPart cs power) :
    ofLiteral? (ws ++ '.' :: (fs ++ cs)) =
      if ws ++ fs = [] then none else some ⟨ofDigits (ws ++ fs), power - fs.length⟩ := by
  have head := fun c hc => (he.head c hc).1
  have point : ∀ c ∈ ('.' :: (fs ++ cs)).head?, c.isDigit = false := by
    rintro c ⟨⟩
    rfl
  have fraction : fractionOf ('.' :: (fs ++ cs)) = (fs, cs) := by
    rw [fractionOf, takeWhile_append_of_head hfs head, dropWhile_append_of_head hfs head]
  simp [ofLiteral?, takeWhile_append_of_head hws point, dropWhile_append_of_head hws point,
    fraction, he.exponent?_eq]

/-- A second point ends a literal, and cannot follow it. -/
theorem ofLiteral?_two_points (hws : ∀ c ∈ ws, c.isDigit = true)
    (hfs : ∀ c ∈ fs, c.isDigit = true) :
    ofLiteral? (ws ++ '.' :: (fs ++ '.' :: cs)) = none := by
  have point (cs : List Char) : ∀ c ∈ ('.' :: cs).head?, c.isDigit = false := by
    rintro c ⟨⟩
    rfl
  have fraction : fractionOf ('.' :: (fs ++ '.' :: cs)) = (fs, '.' :: cs) := by
    rw [fractionOf, takeWhile_append_of_head hfs (point cs),
      dropWhile_append_of_head hfs (point cs)]
  have exponent : exponent? ('.' :: cs) = none := by
    rw [exponent?.eq_def]
    exact if_neg (by decide)
  simp [ofLiteral?, takeWhile_append_of_head hws (point _), dropWhile_append_of_head hws (point _),
    fraction, exponent]

/-! ### Reading a literal -/

/-- A list of digits and points has no point, one, or more than one. -/
theorem mantissa_cases {m : List Char} (hm : ∀ c ∈ m, c.isDigit = true ∨ c = '.') :
    (∀ c ∈ m, c.isDigit = true) ∨
      ∃ ws rest, (∀ c ∈ ws, c.isDigit = true) ∧ m = ws ++ '.' :: rest := by
  by_cases point : '.' ∈ m
  · obtain ⟨ws, rest, rfl, hws⟩ := List.eq_append_cons_of_mem point
    refine .inr ⟨ws, rest, fun c hc => ?_, rfl⟩
    refine (hm c (List.mem_append_left _ hc)).resolve_right ?_
    rintro rfl
    exact hws hc
  · refine .inl fun c hc => (hm c hc).resolve_right ?_
    rintro rfl
    exact point hc

theorem exists_isDigit_iff (hws : ∀ c ∈ ws, c.isDigit = true) :
    (∃ c ∈ ws, c.isDigit = true) ↔ ws ≠ [] := by
  refine ⟨?_, fun h => ?_⟩
  · rintro ⟨c, hc, -⟩
    exact List.ne_nil_of_mem hc
  · obtain ⟨c, hc⟩ := List.exists_mem_of_ne_nil ws h
    exact ⟨c, hc, hws c hc⟩

theorem filter_ne_point (hws : ∀ c ∈ ws, c.isDigit = true) : ws.filter (· ≠ '.') = ws := by
  refine List.filter_eq_self.mpr fun c hc => ?_
  rw [decide_eq_true_eq]
  rintro rfl
  exact absurd (hws _ hc) (by decide)

theorem count_point (hws : ∀ c ∈ ws, c.isDigit = true) : ws.count '.' = 0 :=
  List.count_eq_zero.mpr fun h => absurd (hws _ h) (by decide)

theorem dropWhile_ne_point (hws : ∀ c ∈ ws, c.isDigit = true) :
    ws.dropWhile (· ≠ '.') = [] ∧
      ∀ rest, (ws ++ '.' :: rest).dropWhile (· ≠ '.') = '.' :: rest := by
  have pass : ∀ c ∈ ws, decide (c ≠ '.') = true := fun c hc => by
    rw [decide_eq_true_eq]
    rintro rfl
    exact absurd (hws _ hc) (by decide)
  refine ⟨List.dropWhile_eq_nil_iff.mpr pass, fun rest => ?_⟩
  rw [List.dropWhile_append_of_pos pass]
  rfl

/-- **What a literal spells.** A mantissa and an exponent are a literal exactly if the mantissa has a
digit and at most one point, and then it is the decimal of the parts. -/
theorem ofLiteral?_eq_some_iff {m : List Char} {d : Decimal}
    (hm : ∀ c ∈ m, c.isDigit = true ∨ c = '.') (he : ExponentPart cs power) :
    ofLiteral? (m ++ cs) = some d ↔
      (∃ c ∈ m, c.isDigit = true) ∧ m.count '.' ≤ 1 ∧ ofParts m power = d := by
  rcases mantissa_cases hm with hws | ⟨ws, rest, hws, rfl⟩
  · have digit : (∃ c ∈ m, c.isDigit = true) ↔ m ≠ [] := exists_isDigit_iff hws
    rw [ofLiteral?_digits hws he, digit, count_point hws, ofParts, filter_ne_point hws,
      (dropWhile_ne_point hws).1]
    simp
  have hrest : ∀ c ∈ rest, c.isDigit = true ∨ c = '.' := fun c hc => hm c (by simp [hc])
  rcases mantissa_cases hrest with hfs | ⟨fs, more, hfs, rfl⟩
  · have hall : ∀ c ∈ ws ++ rest, c.isDigit = true := List.forall_mem_append.mpr ⟨hws, hfs⟩
    have digit : (∃ c ∈ ws ++ '.' :: rest, c.isDigit = true) ↔ ws ++ rest ≠ [] := by
      rw [← exists_isDigit_iff hall]
      simp [or_and_right, exists_or]
    have count : (ws ++ '.' :: rest).count '.' = 1 := by
      rw [List.count_append, List.count_cons_self, count_point hws, count_point hfs]
    have digits : (ws ++ '.' :: rest).filter (· ≠ '.') = ws ++ rest := by
      rw [List.filter_append, List.filter_cons_of_neg (by simp), filter_ne_point hws,
        filter_ne_point hfs]
    rw [List.append_assoc, List.cons_append, ofLiteral?_digits_point_digits hws hfs he, digit,
      count, ofParts, digits, (dropWhile_ne_point hws).2]
    simp
  · have many : 1 < (ws ++ '.' :: (fs ++ '.' :: more)).count '.' := by
      simp only [List.count_append, List.count_cons_self]
      omega
    rw [List.append_assoc, List.cons_append, List.append_assoc, List.cons_append,
      ofLiteral?_two_points hws hfs]
    exact iff_of_false (by simp) fun h => absurd h.2.1 (Nat.not_le_of_lt many)

end Decimal

end CurvePlot
