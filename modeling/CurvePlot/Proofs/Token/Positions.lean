import CurvePlot.Proofs.Token.Lexemes

/-!
# Scanning by positions

The scanner takes a text apart from its head. It can as well be said to go over the **positions** of
the text: it looks at the character at a position, walks on to the end of a lexeme and copies what
stands between two positions. Said like that, every step has a domain. A position that is looked at
has to be one of the text, what is copied has to begin before it ends and to end within the text, and
a lexeme has to end behind the position where it begins, or the scanner would not come to an end. Here
a step outside of its domain gives nothing. Scanning by positions always gives what the scanner gives
(`scanAt?_eq`), so no step is ever outside of its domain.
-/

namespace CurvePlot

namespace Token

/-! ### Positions in a text -/

/-- The characters between two **positions** of a text, which have to be in order. -/
def slice? (cs : List Char) (start stop : Nat) : Option (List Char) :=
  if start ≤ stop ∧ stop ≤ cs.length then some ((cs.take stop).drop start) else none

theorem slice?_add {cs : List Char} {i n : Nat} (h : i + n ≤ cs.length) :
    slice? cs i (i + n) = some ((cs.drop i).take n) := by
  rw [slice?, if_pos ⟨Nat.le_add_right i n, h⟩, List.drop_take, Nat.add_sub_cancel_left]

/-- The first position from `i` on whose character fails the test, or the end of the text. -/
def skipWhile? (p : Char → Bool) (cs : List Char) (i : Nat) : Option Nat :=
  if i < cs.length then do
    let c ← cs[i]?
    if p c then skipWhile? p cs (i + 1) else some i
  else
    some i
termination_by cs.length - i

theorem skipWhile?_eq (p : Char → Bool) (cs : List Char) (i : Nat) :
    skipWhile? p cs i = some (i + ((cs.drop i).takeWhile p).length) := by
  fun_induction skipWhile? p cs i with
  | case1 i h ih =>
    rw [List.drop_eq_getElem_cons h, List.getElem?_eq_getElem h, List.takeWhile_cons]
    cases hp : p cs[i] with
    | false => simp [hp]
    | true => simp [hp, ih, Nat.add_assoc, Nat.add_comm 1]
  | case2 i h =>
    rw [List.drop_eq_nil_of_le (not_lt.mp h)]
    rfl

/-- Whether there is a character at a position, and it passes the test. -/
def holdsAt? (p : Char → Bool) (cs : List Char) (i : Nat) : Option Bool :=
  if i < cs.length then cs[i]?.map p else some false

theorem holdsAt?_eq (p : Char → Bool) (cs : List Char) (i : Nat) :
    holdsAt? p cs i = some ((cs.drop i).head?.any p) := by
  rw [holdsAt?, List.head?_drop]
  split
  · rename_i h
    rw [List.getElem?_eq_getElem h]
    rfl
  · rename_i h
    rw [List.getElem?_eq_none (not_lt.mp h)]
    rfl

/-! ### Numbers -/

/-- The position behind a number that begins at a position. -/
def numberEnd? (cs : List Char) (start : Nat) : Option Nat := do
  let stop ← skipWhile? isNumeral cs start
  if ← holdsAt? (fun c => c = 'e' || c = 'E') cs stop then
    let signed ← holdsAt? (fun c => c = '+' || c = '-') cs (stop + 1)
    let first := stop + if signed then 2 else 1
    if ← holdsAt? Char.isDigit cs first then
      skipWhile? Char.isDigit cs first
    else
      some stop
  else
    some stop

theorem digitRun_eq_zero_iff (cs : List Char) :
    digitRun cs = 0 ↔ cs.head?.any Char.isDigit = false := by
  cases cs with
  | nil => simp [digitRun]
  | cons c rest => cases hc : c.isDigit <;> simp [digitRun, hc]

/-- The exponent, by the characters at its head. -/
theorem exponentLength_eq (cs : List Char) : exponentLength cs =
    if cs.head?.any (fun c => c = 'e' || c = 'E') then
      let first := if (cs.drop 1).head?.any (fun c => c = '+' || c = '-') then 2 else 1
      if (cs.drop first).head?.any Char.isDigit then first + digitRun (cs.drop first) else 0
    else
      0 := by
  have run (n : Nat) (digits : List Char) :
      (if digitRun digits = 0 then 0 else n + digitRun digits) =
        if digits.head?.any Char.isDigit then n + digitRun digits else 0 := by
    cases hd : digits.head?.any Char.isDigit with
    | false => rw [if_pos ((digitRun_eq_zero_iff digits).mpr hd), if_neg (by simp)]
    | true =>
      rw [if_neg fun hzero => by simp [(digitRun_eq_zero_iff digits).mp hzero] at hd, if_pos rfl]
  rcases cs with _ | ⟨c, _ | ⟨sign, digits⟩⟩
  · rfl
  · simp [exponentLength]
  · simp only [exponentLength, run]
    by_cases hc : c = 'e' ∨ c = 'E'
    · by_cases hs : sign = '+' ∨ sign = '-'
      · simp [hc, hs]
      · simp [hc, hs]
        rfl
    · simp [hc]

theorem numberEnd?_eq (cs : List Char) (i : Nat) :
    numberEnd? cs i = some (i + numberLength (cs.drop i)) := by
  obtain ⟨n, hn⟩ : ∃ n, n = ((cs.drop i).takeWhile isNumeral).length := ⟨_, rfl⟩
  obtain ⟨rest, hrest⟩ : ∃ rest, rest = (cs.drop i).drop n := ⟨_, rfl⟩
  have behind (k : Nat) : cs.drop (i + n + k) = rest.drop k := by
    rw [hrest, List.drop_drop, List.drop_drop, Nat.add_assoc]
  have here : cs.drop (i + n) = rest := behind 0
  unfold numberEnd? numberLength
  simp only [skipWhile?_eq, holdsAt?_eq, Option.bind_eq_bind, Option.bind_some, ← hn, here, behind,
    ← hrest, exponentLength_eq, digitRun]
  generalize (if (rest.drop 1).head?.any (fun c => c = '+' || c = '-') then 2 else 1) = first
  split_ifs <;> simp only [Nat.add_assoc, Nat.add_zero]

/-! ### Lexemes -/

/-- The lexeme that begins with the character at a position, and the position behind it. -/
def lexemeAt? (cs : List Char) (i : Nat) (c : Char) : Option (Except ParseError (Kind × Nat)) :=
  match Kind.ofChar? c with
  | some kind => some (.ok (kind, i + 1))
  | none =>
    if isNumeral c then do
      let stop ← numberEnd? cs i
      let literal ← slice? cs i stop
      match numberValue? literal with
      | some value => some (.ok (.number value, stop))
      | none => some (.error (.invalidNumber (String.ofList literal) (i + 1)))
    else if isNameStart c then do
      let stop ← skipWhile? isNamePart cs (i + 1)
      let letters ← slice? cs i stop
      some (.ok (.name (String.ofList letters), stop))
    else
      some (.error (.unexpectedCharacter c (i + 1)))

/-- The tokens of a text from a position on, after those already found. -/
def scanAt? (cs : List Char) (i : Nat) (found : List Token) :
    Option (Except ParseError (List Token)) :=
  if i < cs.length then do
    let c ← cs[i]?
    if Text.isSeparator c then
      scanAt? cs (i + 1) found
    else
      match ← lexemeAt? cs i c with
      | .error cause => some (.error cause)
      | .ok (kind, stop) =>
        -- the next lexeme has to begin behind this one
        if i < stop then scanAt? cs stop (⟨kind, i + 1⟩ :: found) else none
  else
    some (.ok found.reverse)
termination_by cs.length - i

section Head

variable {cs : List Char} {i : Nat} {c : Char} {rest : List Char}

theorem length_of_drop_eq_cons (h : cs.drop i = c :: rest) : cs.length = i + 1 + rest.length := by
  have hlength := congrArg List.length h
  rw [List.length_drop, List.length_cons] at hlength
  omega

theorem drop_succ_of_drop_eq_cons (h : cs.drop i = c :: rest) : cs.drop (i + 1) = rest := by
  rw [← List.tail_drop, h, List.tail_cons]

/-- What is copied for a number is the number. -/
theorem slice?_number (h : cs.drop i = c :: rest) :
    slice? cs i (i + numberLength (c :: rest)) =
      some ((c :: rest).take (numberLength (c :: rest))) := by
  have within : numberLength (c :: rest) ≤ rest.length + 1 := numberLength_le (c :: rest)
  have hlength := length_of_drop_eq_cons h
  rw [slice?_add (by omega), h]

/-- What is copied for a name is the name. -/
theorem slice?_name (h : cs.drop i = c :: rest) :
    slice? cs i (i + 1 + (rest.takeWhile isNamePart).length) =
      some (c :: rest.takeWhile isNamePart) := by
  have within : (rest.takeWhile isNamePart).length ≤ rest.length :=
    (List.takeWhile_sublist isNamePart).length_le
  have hlength := length_of_drop_eq_cons h
  rw [Nat.add_assoc, slice?_add (by omega), h, Nat.add_comm, List.take_succ_cons,
    ← List.prefix_iff_eq_take.mp (List.takeWhile_prefix isNamePart)]

theorem numberLength_pos (hnumber : isNumeral c = true) : 0 < numberLength (c :: rest) := by
  rw [numberLength, List.takeWhile_cons_of_pos hnumber, List.length_cons]
  omega

theorem lexemeAt?_eq (h : cs.drop i = c :: rest) :
    lexemeAt? cs i c =
      some ((fun found => (found.1, i + 1 + found.2)) <$> lexeme (i + 1) c rest) := by
  cases hkind : Kind.ofChar? c with
  | some kind =>
    simp only [lexemeAt?, lexeme, hkind]
    rfl
  | none =>
    simp only [lexemeAt?, lexeme, hkind]
    by_cases hnumber : isNumeral c = true
    · simp only [if_pos hnumber, numberEnd?_eq, h, Option.bind_eq_bind, Option.bind_some,
        slice?_number h]
      cases numberValue? ((c :: rest).take (numberLength (c :: rest))) with
      | some value =>
        have pos : 0 < numberLength (c :: rest) := numberLength_pos hnumber
        have hstop : i + numberLength (c :: rest) = i + 1 + (numberLength (c :: rest) - 1) := by
          omega
        rw [hstop]
        rfl
      | none => rfl
    · by_cases hname : isNameStart c = true
      · simp only [if_neg hnumber, if_pos hname, skipWhile?_eq, drop_succ_of_drop_eq_cons h,
          Option.bind_eq_bind, Option.bind_some, slice?_name h]
        rfl
      · simp only [if_neg hnumber, if_neg hname]
        rfl

end Head

/-- **Scanning by positions** never leaves the domain of a step, and gives what the scanner gives. -/
theorem scanAt?_eq (cs : List Char) (i : Nat) (found : List Token) :
    scanAt? cs i found = some (scanFrom (i + 1) found (cs.drop i)) := by
  fun_induction scanAt? cs i found with
  | case1 i found h ih ih' =>
    have hdrop := List.drop_eq_getElem_cons h
    simp only [List.getElem?_eq_getElem h, Option.bind_eq_bind, Option.bind_some,
      lexemeAt?_eq hdrop, hdrop]
    rw [scanFrom]
    split
    · exact ih
    · cases lexeme (i + 1) cs[i] (cs.drop (i + 1)) with
      | error cause => rfl
      | ok found =>
        obtain ⟨kind, more⟩ := found
        have hlt : i < i + 1 + more := by omega
        have hnext := ih' kind (i + 1 + more) hlt
        rw [← List.drop_drop, Nat.add_right_comm (i + 1) more 1] at hnext
        exact (if_pos hlt).trans hnext
  | case2 i found h =>
    rw [List.drop_eq_nil_of_le (not_lt.mp h), scanFrom]

end Token

end CurvePlot
