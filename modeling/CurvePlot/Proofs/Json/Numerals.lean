import CurvePlot.Proofs.Decimal.Positional
import CurvePlot.Proofs.Failure
import CurvePlot.Proofs.Json.Lexemes

/-!
# Numbers of JSON

The text of a number has up to three **parts** after its sign: whole digits without a needless zero,
a fraction and an exponent. A text of that shape is read by its parts (`numeralAt_parts`), whatever
comes after it that does not go on with a number, so it spells one number (`Spells.numberText_of`),
and the value of that number depends on the parts alone.

Every text of a finite double has the shape (`exists_numeralText`), since its decimal is zero only
together with its exponent, and so has every text of an integer. A number is read as an integer just
if its text is that of the integer (`toInt64?_value?_iff`).
-/

namespace CurvePlot

/-! ### Decimals that stand for doubles -/

namespace Decimal

/-- The first digit of a positive number is not a zero. -/
theorem exists_digitsOf_eq_cons {n : ℕ} (h : 0 < n) : ∃ c ds, digitsOf n = c :: ds ∧ c ≠ '0' := by
  induction n using Nat.strong_induction_on with
  | _ n ih =>
    by_cases small : n < 10
    · refine ⟨Nat.digitChar n, [], Nat.toDigits_of_lt_base small, ?_⟩
      interval_cases n <;> decide
    · obtain ⟨c, ds, hds, hc⟩ := ih (n / 10) (by omega) (by omega)
      have split : digitsOf n = digitsOf (n / 10) ++ digitsOf (n % 10) := by
        have whole : 10 * (n / 10) + n % 10 = n := by omega
        rw [digitsOf, digitsOf, digitsOf,
          Nat.toDigits_append_toDigits (by decide) (by omega) (by omega), whole]
      exact ⟨c, ds ++ digitsOf (n % 10), by rw [split, hds, List.cons_append], hc⟩

/-- Zero is not multiplied by a power of ten. -/
def IsReduced (d : Decimal) : Prop :=
  0 < d.digits ∨ d.exponent ≤ 0

end Decimal

namespace Binary64.Magnitude

variable {m : Magnitude} {grid : ℤ}

/-- Zero does not round to a positive double. -/
theorem admits_zero (hm : 0 < m.mantissa) : m.admits grid 0 = false := by
  have scale : 0 < m.scale grid := by
    simp only [Magnitude.scale, Nat.pow_eq]
    positivity
  have low : 0 < (4 * m.mantissa - (if m.narrowBelow then 1 else 2)) * m.scale grid := by
    refine Nat.mul_pos ?_ scale
    split <;> omega
  rw [admits]
  split
  · exact decide_eq_false (by omega)
  · exact decide_eq_false (by omega)

theorem pos_of_onGrid? {tie : Tie} {count : ℕ} (hm : 0 < m.mantissa)
    (h : m.onGrid? tie grid = some count) : 0 < count := by
  have pos {below : ℕ} (h : m.admits grid below = true) : 0 < below := by
    refine Nat.pos_of_ne_zero ?_
    rintro rfl
    rw [admits_zero hm] at h
    cases h
  unfold onGrid? at h
  simp only at h
  split at h
  · rename_i below _
    have := pos below
    obtain rfl := Option.some.inj h
    simp only [nearer]
    split_ifs
    · exact this
    · exact Nat.succ_pos _
    · cases tie
      · exact Nat.add_pos_left this _
      · exact Nat.succ_pos _
  · rename_i below _
    obtain rfl := Option.some.inj h
    exact pos below
  · obtain rfl := Option.some.inj h
    exact Nat.succ_pos _
  · cases h

theorem isReduced_expansion (m : Magnitude) : m.expansion.IsReduced :=
  .inr (show -(places : ℤ) ≤ 0 by decide)

theorem isReduced_search {tie : Tie} (hm : 0 < m.mantissa) (grids : ℕ) (grid : ℤ) :
    (m.search tie grids grid).IsReduced := by
  induction grids generalizing grid with
  | zero => exact m.isReduced_expansion
  | succ grids ih =>
    rw [search]
    split
    · rename_i count h
      exact .inl (pos_of_onGrid? hm h)
    · exact ih (grid - 1)

theorem isReduced_shortest (m : Magnitude) (tie : Tie) : (m.shortest tie).IsReduced := by
  rw [shortest]
  split
  · exact .inr (Int.le_refl 0)
  · exact isReduced_search (Nat.pos_of_ne_zero ‹_›) 24 m.coarsestGrid

end Binary64.Magnitude

/-- The decimal of a double is not zero times a power of ten. -/
theorem Decimal.isReduced_ofFloat (tie : Tie) (v : Float) : (ofFloat tie v).IsReduced := by
  unfold ofFloat
  simp only
  split
  · exact (Binary64.magnitude v).isReduced_shortest tie
  · exact (Binary64.magnitude v).isReduced_expansion

namespace Json

open Decimal (digitsOf ofDigits signedDigits)

/-! ### The parts of a number -/

/-- Digits without a needless zero in front. -/
structure IsWhole (ws : List Char) : Prop where
  nonempty : ws ≠ []
  digit : ∀ c ∈ ws, c.isDigit = true
  zero : ∀ more, ws = '0' :: more → more = []

/-- At least one digit. -/
structure IsFraction (fs : List Char) : Prop where
  nonempty : fs ≠ []
  digit : ∀ c ∈ fs, c.isDigit = true

/-- The text of a number that was written, after its sign, and its parts. -/
inductive NumeralText (negative : Bool) : List Char → Numeral → Prop
  | whole {ws : List Char} (hw : IsWhole ws) : NumeralText negative ws ⟨negative, ws, none, none⟩
  | fraction {ws fs : List Char} (hw : IsWhole ws) (hf : IsFraction fs) :
    NumeralText negative (ws ++ '.' :: fs) ⟨negative, ws, some fs, none⟩
  | exponent {ws : List Char} (hw : IsWhole ws) (e : ℤ) :
    NumeralText negative (ws ++ 'e' :: signedDigits e) ⟨negative, ws, none, some e⟩
  | both {ws fs : List Char} (hw : IsWhole ws) (hf : IsFraction fs) (e : ℤ) :
    NumeralText negative (ws ++ '.' :: (fs ++ 'e' :: signedDigits e))
      ⟨negative, ws, some fs, some e⟩

/-- A point and digits, if there is a fraction. -/
inductive FractionText : List Char → Option (List Char) → Prop
  | absent : FractionText [] none
  | point {fs : List Char} (hf : IsFraction fs) : FractionText ('.' :: fs) (some fs)

/-- A mark, a sign and digits, if there is an exponent. -/
inductive ExponentText : List Char → Option ℤ → Prop
  | absent : ExponentText [] none
  | bare {mark : Char} {ds : List Char} (hmark : mark = 'e' ∨ mark = 'E') (hd : IsFraction ds) :
    ExponentText (mark :: ds) (some (ofDigits ds))
  | plus {mark : Char} {ds : List Char} (hmark : mark = 'e' ∨ mark = 'E') (hd : IsFraction ds) :
    ExponentText (mark :: '+' :: ds) (some (ofDigits ds))
  | minus {mark : Char} {ds : List Char} (hmark : mark = 'e' ∨ mark = 'E') (hd : IsFraction ds) :
    ExponentText (mark :: '-' :: ds) (some (-ofDigits ds))

/-- The **text of a number** with its sign, and its parts. -/
inductive NumberText : List Char → Numeral → Prop
  | unsigned {ws fs es : List Char} {fraction : Option (List Char)} {exponent : Option ℤ}
    (hw : IsWhole ws) (hf : FractionText fs fraction) (he : ExponentText es exponent) :
    NumberText (ws ++ (fs ++ es)) ⟨false, ws, fraction, exponent⟩
  | minus {ws fs es : List Char} {fraction : Option (List Char)} {exponent : Option ℤ}
    (hw : IsWhole ws) (hf : FractionText fs fraction) (he : ExponentText es exponent) :
    NumberText ('-' :: (ws ++ (fs ++ es))) ⟨true, ws, fraction, exponent⟩

theorem isWhole_singleton {c : Char} (h : c.isDigit = true) : IsWhole [c] where
  nonempty := List.cons_ne_nil c []
  digit := by simpa using h
  zero := by
    rintro more ⟨⟩
    rfl

theorem isWhole_of_cons {c : Char} {more : List Char} (hc : c ≠ '0')
    (digit : ∀ d ∈ c :: more, d.isDigit = true) : IsWhole (c :: more) where
  nonempty := List.cons_ne_nil c more
  digit := digit
  zero := by
    rintro _ ⟨⟩
    exact absurd rfl hc

theorem isWhole_digitsOf (n : ℕ) : IsWhole (digitsOf n) := by
  rcases Nat.eq_zero_or_pos n with rfl | pos
  · exact isWhole_singleton (c := '0') rfl
  · obtain ⟨c, ds, hds, hc⟩ := Decimal.exists_digitsOf_eq_cons pos
    have digit := fun d => Decimal.isDigit_of_mem_digitsOf (n := n) (c := d)
    rw [hds] at digit ⊢
    exact isWhole_of_cons hc digit

/-- Some of the first digits of a positive number, and zeros after them. -/
theorem isWhole_take_append_zeros {n k : ℕ} (hn : 0 < n) (hk : 0 < k) (zeros : ℕ) :
    IsWhole ((digitsOf n).take k ++ List.replicate zeros '0') := by
  obtain ⟨c, ds, hds, hc⟩ := Decimal.exists_digitsOf_eq_cons hn
  obtain ⟨k, rfl⟩ := Nat.exists_eq_succ_of_ne_zero hk.ne'
  have digit : ∀ d ∈ (digitsOf n).take (k + 1) ++ List.replicate zeros '0',
      d.isDigit = true := by
    simp only [List.mem_append]
    rintro d (hd | hd)
    · exact Decimal.isDigit_of_mem_digitsOf (List.mem_of_mem_take hd)
    · exact Decimal.isDigit_of_mem_zeros hd
  rw [hds, List.take_succ_cons, List.cons_append] at digit ⊢
  exact isWhole_of_cons hc digit

theorem digitChar_of_isDigit {c : Char} (h : c.isDigit = true) :
    c.toNat - '0'.toNat < 10 ∧ Nat.digitChar (c.toNat - '0'.toNat) = c := by
  obtain ⟨lower, upper⟩ := Char.isDigit_iff_toNat.mp h
  rw [← Char.ofNat_toNat c]
  change 48 ≤ c.toNat at lower
  change c.toNat ≤ 57 at upper
  generalize c.toNat = n at lower upper
  interval_cases n <;> decide

/-- Digits without a needless zero are those of what they say. -/
theorem digitsOf_ofDigits {ws : List Char} (h : IsWhole ws) : digitsOf (ofDigits ws) = ws := by
  induction ws using List.reverseRecOn with
  | nil => exact absurd rfl h.nonempty
  | append_singleton ws c ih =>
    obtain ⟨small, same⟩ := digitChar_of_isDigit (h.digit c (by simp))
    have value : ofDigits (ws ++ [c]) = 10 * ofDigits ws + (c.toNat - '0'.toNat) := by
      simp [ofDigits]
    rcases ws with _ | ⟨d, ws⟩
    · have single : ofDigits [c] = c.toNat - '0'.toNat := by
        simp [ofDigits]
      rw [List.nil_append, single, digitsOf, Nat.toDigits_of_lt_base small, same]
    · have init : IsWhole (d :: ws) := by
        refine isWhole_of_cons ?_ fun e he => h.digit e (List.mem_append_left _ he)
        rintro rfl
        have alone := h.zero (ws ++ [c]) rfl
        simp at alone
      have pos : 0 < ofDigits (d :: ws) := by
        refine Nat.pos_of_ne_zero fun zero => ?_
        have digits := ih init
        rw [zero] at digits
        change ['0'] = d :: ws at digits
        obtain ⟨rfl, rfl⟩ := List.cons.inj digits
        have alone := h.zero [c] rfl
        cases alone
      have last : digitsOf (c.toNat - '0'.toNat) = [c] := by
        rw [digitsOf, Nat.toDigits_of_lt_base small, same]
      rw [value, digitsOf, ← Nat.toDigits_append_toDigits (by decide) pos small]
      exact congrArg₂ (· ++ ·) (ih init) last

/-! ### Numbers that were written -/

variable (negative : Bool)

theorem exists_numeralText_withFraction {d : Decimal} (h : d.IsReduced) :
    ∃ t, NumeralText negative (withFraction d) t := by
  have zeros (count : ℕ) : IsFraction (List.replicate count '0' ++ digitsOf d.digits) :=
    ⟨List.append_ne_nil_of_right_ne_nil _ (Decimal.digitsOf_ne_nil _),
      fun c => Decimal.isDigit_of_mem_zeros_append⟩
  unfold withFraction Decimal.positional
  simp only
  split
  · -- no digit stands behind the point but the zero that is put there
    refine ⟨_, .fraction ?_ ⟨List.cons_ne_nil '0' [], by simp⟩⟩
    rcases h with pos | nonpos
    · have whole := isWhole_take_append_zeros (n := d.digits) pos
        (List.length_pos_iff.mpr (Decimal.digitsOf_ne_nil d.digits)) d.exponent.toNat
      rwa [List.take_length] at whole
    · rw [Int.toNat_of_nonpos nonpos, List.replicate_zero, List.append_nil]
      exact isWhole_digitsOf d.digits
  · rename_i negativeExponent
    split
    · -- the point stands among the digits
      rename_i inner
      have pos : 0 < d.digits := by
        refine Nat.pos_of_ne_zero fun zero => ?_
        rw [zero] at inner
        change _ < 1 at inner
        omega
      have whole := isWhole_take_append_zeros pos (Nat.sub_pos_of_lt inner) 0
      rw [List.replicate_zero, List.append_nil] at whole
      refine ⟨_, .fraction whole ⟨?_, fun c hc =>
        Decimal.isDigit_of_mem_digitsOf (List.mem_of_mem_drop hc)⟩⟩
      refine List.ne_nil_of_length_pos ?_
      rw [List.length_drop]
      omega
    · -- the point stands in front of the digits
      exact ⟨_, .fraction (isWhole_singleton (c := '0') rfl) (zeros _)⟩

theorem exists_numeralText_scientific (d : Decimal) :
    ∃ t, NumeralText negative d.scientific t := by
  have digit := fun c => Decimal.isDigit_of_mem_digitsOf (n := d.digits) (c := c)
  have nonempty := Decimal.digitsOf_ne_nil d.digits
  unfold Decimal.scientific
  generalize digitsOf d.digits = ds at digit nonempty
  match ds with
  | [] => exact absurd rfl nonempty
  | [first] => exact ⟨_, .exponent (isWhole_singleton (digit first List.mem_cons_self)) _⟩
  | first :: second :: rest =>
    refine ⟨_, .both (isWhole_singleton (digit first List.mem_cons_self))
      ⟨List.cons_ne_nil second rest, fun c hc => digit c (List.mem_cons_of_mem first hc)⟩ _⟩

/-- **The text of every double** is that of a number, apart from its sign. -/
theorem exists_numeralText (v : Float) : ∃ t, NumeralText negative (magnitudeText v) t := by
  unfold magnitudeText
  simp only
  split
  · exact exists_numeralText_withFraction negative (Decimal.isReduced_ofFloat .even v)
  · exact exists_numeralText_scientific negative _

/-! ### Reading the parts -/

/-- No number goes on with a text. -/
def EndsNumber (rest : List Char) : Prop :=
  ∀ c ∈ rest.head?, c.isDigit = false ∧ c ≠ '.' ∧ c ≠ 'e' ∧ c ≠ 'E'

theorem endsNumber_nil : EndsNumber [] :=
  fun _ h => by cases h

theorem endsNumber_cons {c : Char} (h : c.isDigit = false ∧ c ≠ '.' ∧ c ≠ 'e' ∧ c ≠ 'E')
    (rest : List Char) : EndsNumber (c :: rest) := by
  rintro _ ⟨⟩
  exact h

namespace Lexeme

variable {negative}

theorem wholePart_append {ws rest : List Char} (hw : IsWhole ws)
    (hrest : ∀ c ∈ rest.head?, c.isDigit = false) : wholePart (ws ++ rest) = .ok (ws, rest) := by
  rcases ws with _ | ⟨c, more⟩
  · exact absurd rfl hw.nonempty
  have hc := hw.digit c List.mem_cons_self
  have run := fun d hd => hw.digit d (List.mem_cons_of_mem c hd)
  rw [List.cons_append]
  by_cases zero : c = '0'
  · subst zero
    obtain rfl := hw.zero more rfl
    rcases rest with _ | ⟨d, rest⟩
    · rfl
    · rw [List.nil_append, wholePart]
      simp [hrest d rfl]
  · rw [wholePart]
    · rw [if_pos hc, takeWhile_append_of_head run hrest, dropWhile_append_of_head run hrest]
    · exact fun h => zero h

theorem fractionPart_point {fs rest : List Char} (hf : IsFraction fs)
    (hrest : ∀ c ∈ rest.head?, c.isDigit = false) :
    fractionPart ('.' :: (fs ++ rest)) = .ok (some fs, rest) := by
  rw [fractionPart]
  simp only [takeWhile_append_of_head hf.digit hrest, dropWhile_append_of_head hf.digit hrest,
    if_neg hf.nonempty]

theorem fractionPart_absent {rest : List Char} (h : ∀ c ∈ rest.head?, c ≠ '.') :
    fractionPart rest = .ok (none, rest) := by
  rw [fractionPart]
  rintro more rfl
  exact h '.' rfl rfl

theorem exponentPart_absent {rest : List Char} (h : ∀ c ∈ rest.head?, c ≠ 'e' ∧ c ≠ 'E') :
    exponentPart rest = .ok (none, rest) := by
  rcases rest with _ | ⟨c, rest⟩
  · rfl
  · obtain ⟨lower, upper⟩ := h c rfl
    rw [exponentPart, if_neg (by simp [lower, upper])]

theorem exponentAt_digits {ds rest : List Char} (hd : IsFraction ds)
    (hrest : ∀ c ∈ rest.head?, c.isDigit = false) {cs : List Char} {negative : Bool}
    (sign : signAt cs = (negative, ds ++ rest)) :
    exponentAt cs = .ok (if negative then -(ofDigits ds : ℤ) else ofDigits ds, rest) := by
  have run := takeWhile_append_of_head hd.digit hrest
  have after := dropWhile_append_of_head hd.digit hrest
  obtain ⟨c, more, rfl⟩ := List.exists_cons_of_ne_nil hd.nonempty
  rw [List.cons_append] at run after sign
  rw [exponentAt, sign]
  simp only [if_pos (hd.digit c List.mem_cons_self), run, after]

theorem exponentPart_append {es rest : List Char} {exponent : Option ℤ}
    (h : ExponentText es exponent) (ends : EndsNumber rest) :
    exponentPart (es ++ rest) = .ok (exponent, rest) := by
  have noDigit : ∀ c ∈ rest.head?, c.isDigit = false := fun c hc => (ends c hc).1
  cases h with
  | absent => exact exponentPart_absent fun c hc => (ends c hc).2.2
  | @bare mark ds hmark hd =>
    have sign : signAt (ds ++ rest) = (false, ds ++ rest) := by
      obtain ⟨c, more, rfl⟩ := List.exists_cons_of_ne_nil hd.nonempty
      have hc := hd.digit c List.mem_cons_self
      rw [List.cons_append, signAt]
      · rintro _ ⟨⟩
        cases hc
      · rintro _ ⟨⟩
        cases hc
    rw [List.cons_append, exponentPart, if_pos hmark, exponentAt_digits hd noDigit sign]
    rfl
  | plus hmark hd =>
    rw [List.cons_append, exponentPart, if_pos hmark, exponentAt_digits hd noDigit rfl]
    rfl
  | minus hmark hd =>
    rw [List.cons_append, exponentPart, if_pos hmark, exponentAt_digits hd noDigit rfl]
    rfl

theorem fractionPart_append {fs rest : List Char} {fraction : Option (List Char)}
    (h : FractionText fs fraction) (hrest : ∀ c ∈ rest.head?, c.isDigit = false ∧ c ≠ '.') :
    fractionPart (fs ++ rest) = .ok (fraction, rest) := by
  cases h with
  | absent => exact fractionPart_absent fun c hc => (hrest c hc).2
  | point hf => exact fractionPart_point hf fun c hc => (hrest c hc).1

/-- No digit and no point stands where an exponent may begin. -/
theorem head_exponent {es rest : List Char} {exponent : Option ℤ} (h : ExponentText es exponent)
    (ends : EndsNumber rest) : ∀ c ∈ (es ++ rest).head?, c.isDigit = false ∧ c ≠ '.' := by
  cases h with
  | absent => exact fun c hc => ⟨(ends c hc).1, (ends c hc).2.1⟩
  | bare hmark | plus hmark | minus hmark =>
    rintro c ⟨⟩
    rcases hmark with rfl | rfl <;> decide

/-- No digit stands where a fraction may begin. -/
theorem head_fraction {fs rest : List Char} {fraction : Option (List Char)}
    (h : FractionText fs fraction) (hrest : ∀ c ∈ rest.head?, c.isDigit = false) :
    ∀ c ∈ (fs ++ rest).head?, c.isDigit = false := by
  cases h with
  | absent => exact hrest
  | point =>
    rintro c ⟨⟩
    rfl

theorem numeralAt_parts (negative : Bool) {ws fs es rest : List Char}
    {fraction : Option (List Char)} {exponent : Option ℤ} (hw : IsWhole ws)
    (hf : FractionText fs fraction) (he : ExponentText es exponent) (ends : EndsNumber rest) :
    numeralAt negative (ws ++ (fs ++ es) ++ rest) = .ok (⟨negative, ws, fraction, exponent⟩, rest) := by
  have afterFraction := head_exponent he ends
  have afterWhole := head_fraction hf fun c hc => (afterFraction c hc).1
  rw [numeralAt, List.append_assoc, List.append_assoc, wholePart_append hw afterWhole]
  simp only [ok_bind, fractionPart_append hf afterFraction, exponentPart_append he ends]
  rfl

/-- The exponent that is written for a number has a sign. -/
theorem exponentText_signedDigits (e : ℤ) : ExponentText ('e' :: signedDigits e) (some e) := by
  have digits : IsFraction (digitsOf e.natAbs) :=
    ⟨Decimal.digitsOf_ne_nil _, fun _ => Decimal.isDigit_of_mem_digitsOf⟩
  have value := Decimal.ofDigits_digitsOf e.natAbs
  have mark : 'e' = 'e' ∨ 'e' = 'E' := .inl rfl
  rw [signedDigits]
  split
  · have text := ExponentText.minus mark digits
    have signed : -(ofDigits (digitsOf e.natAbs) : ℤ) = e := by omega
    rwa [signed] at text
  · have text := ExponentText.plus mark digits
    have signed : (ofDigits (digitsOf e.natAbs) : ℤ) = e := by omega
    rwa [signed] at text

/-- The text of a number that was written is read by its parts, whatever comes after it. -/
theorem numeralAt_append {cs rest : List Char} {t : Numeral} (h : NumeralText negative cs t)
    (ends : EndsNumber rest) : numeralAt negative (cs ++ rest) = .ok (t, rest) := by
  cases h with
  | whole hw =>
    have read := numeralAt_parts negative hw .absent .absent ends
    rwa [List.append_nil, List.append_nil] at read
  | fraction hw hf =>
    have read := numeralAt_parts negative hw (.point hf) .absent ends
    rwa [List.append_nil] at read
  | exponent hw e => exact numeralAt_parts negative hw .absent (exponentText_signedDigits e) ends
  | both hw hf e => exact numeralAt_parts negative hw (.point hf) (exponentText_signedDigits e) ends

/-! ### Lexemes of numbers -/

theorem lexemeAt_of_isDigit {c : Char} (h : c.isDigit = true) (rest : List Char) :
    lexemeAt c rest = numberAt false (c :: rest) := by
  unfold lexemeAt
  split
  case h_12 => rw [if_pos h]
  all_goals cases h

theorem NumeralText.exists_cons {cs : List Char} {t : Numeral}
    (h : NumeralText negative cs t) : ∃ c more, cs = c :: more ∧ c.isDigit = true := by
  have head {ws : List Char} (hw : IsWhole ws) (rest : List Char) :
      ∃ c more, ws ++ rest = c :: more ∧ c.isDigit = true := by
    obtain ⟨c, more, rfl⟩ := List.exists_cons_of_ne_nil hw.nonempty
    exact ⟨c, _, rfl, hw.digit c List.mem_cons_self⟩
  cases h with
  | whole hw =>
    have found := head hw []
    rwa [List.append_nil] at found
  | fraction hw | exponent hw | both hw => exact head hw _

theorem isBlank_of_isDigit {c : Char} (h : c.isDigit = true) : isBlank c = false := by
  rw [Bool.eq_false_iff]
  intro blank
  simp only [isBlank, Bool.or_eq_true, decide_eq_true_eq] at blank
  rcases blank with ((rfl | rfl) | rfl) | rfl <;> cases h

/-- What is read by its parts, with its sign, spells a number. -/
theorem Spells.of_numeralAt {cs rest : List Char} {t : Numeral} {c : Char} {more : List Char}
    (hcs : cs = c :: more) (hc : c.isDigit = true)
    (read : numeralAt negative (cs ++ rest) = .ok (t, rest)) :
    Spells (if negative then '-' :: cs else cs) [.number t.value?] rest := by
  have number : numberAt negative (cs ++ rest) = (.number t.value?, rest) := by
    rw [numberAt, read]
  subst hcs
  cases negative with
  | true => exact .of_lexemeAt rfl number
  | false => exact .of_lexemeAt (isBlank_of_isDigit hc) ((lexemeAt_of_isDigit hc _).trans number)

/-- **The text of a number** that was written, with its sign, spells the number. -/
theorem Spells.numeral {cs rest : List Char} {t : Numeral} (h : NumeralText negative cs t)
    (ends : EndsNumber rest) :
    Spells (if negative then '-' :: cs else cs) [.number t.value?] rest := by
  obtain ⟨c, more, hcs, hc⟩ := NumeralText.exists_cons h
  exact .of_numeralAt hcs hc (numeralAt_append h ends)

/-- **However a number is written**, its text spells the number. -/
theorem Spells.numberText_of {cs rest : List Char} {t : Numeral} (h : NumberText cs t)
    (ends : EndsNumber rest) : Spells cs [.number t.value?] rest := by
  cases h with
  | unsigned hw hf he =>
    obtain ⟨c, more, rfl⟩ := List.exists_cons_of_ne_nil hw.nonempty
    exact .of_numeralAt rfl (hw.digit c List.mem_cons_self) (numeralAt_parts false hw hf he ends)
  | minus hw hf he =>
    obtain ⟨c, more, rfl⟩ := List.exists_cons_of_ne_nil hw.nonempty
    exact .of_numeralAt rfl (hw.digit c List.mem_cons_self) (numeralAt_parts true hw hf he ends)

/-- **The text of a double** spells one lexeme, whatever comes after it: a number if the double is
finite, and the word for nothing if it is not. -/
theorem exists_spells_numberText (v : Float) : ∃ l,
    (∀ rest, EndsNumber rest → Spells (numberText v) [l] rest) ∧
      (v.isFinite = true → ∃ n, l = .number n) ∧ (v.isFinite = false → l = .null) := by
  by_cases finite : v.isFinite = true
  · obtain ⟨t, ht⟩ := exists_numeralText (Binary64.signBit v) v
    refine ⟨.number t.value?, fun rest ends => ?_, fun _ => ⟨_, rfl⟩, fun h => ?_⟩
    · rw [numberText, if_pos finite]
      exact .numeral ht ends
    · rw [finite] at h
      cases h
  · refine ⟨.null, fun rest _ => ?_, fun h => absurd h finite, fun _ => rfl⟩
    rw [numberText, if_neg finite]
    exact .null rest

/-! ### Whole numbers -/

/-- Digits are taken as long as what they say fits 64 bits. -/
theorem absorb_of_lt {first : ℕ} {ds : List Char}
    (h : ds.foldl (fun value c => 10 * value + (c.toNat - '0'.toNat)) first < UInt64.size) :
    Numeral.absorb first ds =
      (ds.foldl (fun value c => 10 * value + (c.toNat - '0'.toNat)) first, ds.length) := by
  have le_foldl (first : ℕ) (ds : List Char) :
      first ≤ ds.foldl (fun value c => 10 * value + (c.toNat - '0'.toNat)) first := by
    induction ds generalizing first with
    | nil => exact Nat.le_refl _
    | cons c ds ih =>
      rw [List.foldl_cons]
      exact Nat.le_trans (by omega) (ih _)
  induction ds generalizing first with
  | nil => rfl
  | cons c ds ih =>
    rw [List.foldl_cons] at h ⊢
    rw [Numeral.absorb]
    simp only [if_pos (Nat.lt_of_le_of_lt (le_foldl _ ds) h), ih h, List.length_cons]

/-- Whole numbers that fit 64 bits are read exactly. -/
theorem value?_digitsOf {n : ℕ} (h : n < UInt64.size) :
    Numeral.value? ⟨negative, digitsOf n, none, none⟩ = some (Numeral.wholeValue negative n) := by
  have value : (digitsOf n).foldl (fun value c => 10 * value + (c.toNat - '0'.toNat)) 0 = n :=
    Decimal.ofDigits_digitsOf n
  have taken : Numeral.absorb 0 (digitsOf n) = (n, (digitsOf n).length) := by
    rw [absorb_of_lt (by rwa [value]), value]
  simp [Numeral.value?, taken]

/-- **The text of an integer** of 64 bits spells that integer. -/
theorem Spells.integer (n : Int64) {rest : List Char} (ends : EndsNumber rest) :
    Spells (toString n.toInt).toList [.number (some (.whole n.toInt))] rest := by
  have lower : -2 ^ 63 ≤ n.toInt := n.le_toInt
  have upper : n.toInt < 2 ^ 63 := n.toInt_lt
  generalize n.toInt = i at lower upper
  have spells (negative : Bool) {n : ℕ} (h : n < UInt64.size) :
      Spells (if negative then '-' :: digitsOf n else digitsOf n)
        [.number (some (Numeral.wholeValue negative n))] rest := by
    rw [← value?_digitsOf h]
    exact .numeral (.whole (isWhole_digitsOf n)) ends
  rw [Int.toString_eq_repr, Int.repr_eq_if]
  split
  · rename_i nonneg
    have spelled := spells false (n := i.toNat) (by simp only [UInt64.size]; omega)
    have same : Numeral.wholeValue false i.toNat = .whole i := by
      rw [Numeral.wholeValue, Int.toNat_of_nonneg nonneg]
      rfl
    rw [Nat.repr, String.toList_ofList]
    rwa [same] at spelled
  · rename_i neg
    have spelled := spells true (n := (-i).toNat) (by simp only [UInt64.size]; omega)
    have same : Numeral.wholeValue true (-i).toNat = .whole i := by
      have most : Int64.maxValue.toInt = 2 ^ 63 - 1 := by decide
      rw [Numeral.wholeValue, if_pos rfl, if_neg]
      · congr 1
        omega
      · rw [most]
        omega
    rw [Nat.repr, String.toList_append, String.toList_ofList, String.toList_ofList]
    rwa [same] at spelled

end Lexeme

/-! ### Numbers that are integers -/

theorem Number.toInt64?_whole_eq_some_iff {k : ℤ} {n : Int64} :
    (whole k).toInt64? = some n ↔ k = n.toInt := by
  have least : Int64.minValue.toInt = -2 ^ 63 := by decide
  have most : Int64.maxValue.toInt = 2 ^ 63 - 1 := by decide
  constructor
  · intro h
    rw [toInt64?, least, most] at h
    split at h
    · rename_i range
      obtain rfl := Option.some.inj h
      rw [Int64.toInt_ofInt_of_le (by omega) (by omega)]
    · cases h
  · rintro rfl
    rw [toInt64?, if_pos ⟨n.minValue_le_toInt, n.toInt_le⟩, Int64.ofInt_toInt]

namespace Numeral

/-- Where all digits were taken, what was taken is what they say. -/
theorem absorb_of_length_eq (first : ℕ) (ds : List Char) :
    (Numeral.absorb first ds).2 ≤ ds.length ∧
      ((Numeral.absorb first ds).2 = ds.length → (Numeral.absorb first ds).1 =
        ds.foldl (fun value c => 10 * value + (c.toNat - '0'.toNat)) first) := by
  induction ds generalizing first with
  | nil => exact ⟨Nat.le_refl 0, fun _ => rfl⟩
  | cons c ds ih =>
    rw [Numeral.absorb]
    simp only
    split
    · exact ⟨Nat.succ_le_succ (ih _).1, fun h => (ih _).2 (Nat.succ.inj h)⟩
    · exact ⟨Nat.zero_le _, fun h => by cases h⟩

/-- A zero with a sign is no integer, and neither is what does not fit 64 bits. -/
theorem of_toInt64?_wholeValue {m : ℕ} {n : Int64}
    (h : (wholeValue negative m).toInt64? = some n) :
    (negative = true → m ≠ 0) ∧ (if negative then -(m : ℤ) else m) = n.toInt := by
  rw [wholeValue] at h
  split at h
  · rename_i neg
    split at h
    · cases h
    · rename_i small
      rw [if_pos neg]
      exact ⟨fun _ zero => small (.inl zero), Number.toInt64?_whole_eq_some_iff.mp h⟩
  · rename_i unsigned
    rw [if_neg unsigned]
    exact ⟨fun neg => absurd neg unsigned, Number.toInt64?_whole_eq_some_iff.mp h⟩

/-- A number with a point or an exponent is no integer, whatever its value is. -/
theorem of_toInt64?_value? {t : Numeral} {n : Int64}
    (h : t.value?.bind Number.toInt64? = some n) :
    t.fraction = none ∧ t.exponent = none ∧
      (wholeValue t.negative (ofDigits t.whole)).toInt64? = some n := by
  rw [value?] at h
  simp only at h
  split at h
  · rename_i all
    obtain ⟨dropped, fraction, exponent⟩ := all
    obtain ⟨le, value⟩ := absorb_of_length_eq 0 t.whole
    rw [value (by omega)] at h
    exact ⟨fraction, exponent, h⟩
  · generalize scale? _ _ = scaled at h
    cases scaled <;> cases h

/-- Digits that were written with a sign, unless it is the sign of a zero, are those of an integer. -/
theorem toList_toString_of_digits (negative : Bool) {ws : List Char} (hw : IsWhole ws)
    (zero : negative = true → ofDigits ws ≠ 0) :
    (toString (if negative then -(ofDigits ws : ℤ) else ofDigits ws)).toList =
      if negative then '-' :: ws else ws := by
  have digits := digitsOf_ofDigits hw
  rw [Int.toString_eq_repr, Int.repr_eq_if]
  cases negative with
  | false =>
    have nonneg : (0 : ℤ) ≤ ofDigits ws := Int.natCast_nonneg _
    simp only [Bool.false_eq_true, if_false, if_pos nonneg, Int.toNat_natCast]
    rw [Nat.repr, String.toList_ofList]
    exact digits
  | true =>
    have neg : ¬(0 : ℤ) ≤ -(ofDigits ws : ℤ) := by
      have := zero rfl
      omega
    simp only [if_true, if_neg neg, neg_neg, Int.toNat_natCast]
    rw [Nat.repr, String.toList_append, String.toList_ofList, String.toList_ofList]
    exact congrArg ('-' :: ·) digits

/-- **A number is read as an integer** just if its text is that of the integer. -/
theorem toInt64?_value?_iff {cs : List Char} {t : Numeral} (text : NumberText cs t) (n : Int64) :
    t.value?.bind Number.toInt64? = some n ↔ cs = (toString n.toInt).toList := by
  constructor
  · intro h
    obtain ⟨fraction, exponent, value⟩ := of_toInt64?_value? h
    obtain ⟨zero, signed⟩ := of_toInt64?_wholeValue _ value
    rw [← signed]
    cases text with
    | unsigned hw hf he | minus hw hf he =>
      cases hf with
      | point => cases fraction
      | absent =>
        cases he with
        | absent =>
          rw [List.append_nil, List.append_nil]
          exact (toList_toString_of_digits _ hw zero).symm
        | _ => cases exponent
  · rintro rfl
    have asNumber := (Lexeme.Spells.numberText_of text endsNumber_nil).scan
    have asInteger := (Lexeme.Spells.integer n endsNumber_nil).scan
    rw [asInteger, List.singleton_inj, Lexeme.number.injEq] at asNumber
    rw [← asNumber]
    exact Number.toInt64?_whole_eq_some_iff.mpr rfl

end Numeral

end Json

end CurvePlot
