/-!
# Separators and white space

Two classes of characters are passed over. **Separators** may stand between the tokens of a
formula: the space, the tab, the line feed, the form feed and the carriage return. **White
space** is the wider Unicode property of that name, and decides whether a request names a
function at all.
-/

namespace CurvePlot.Text

/-- Whether a character may stand between two tokens. -/
def isSeparator (c : Char) : Bool :=
  c = ' ' || c = '\t' || c = '\n' || c = '\x0c' || c = '\r'

/-- The ranges of the Unicode property of white space, in ascending order. -/
def whiteSpaceRanges : List (Nat × Nat) :=
  [(0x0009, 0x000D), (0x0020, 0x0020), (0x0085, 0x0085), (0x00A0, 0x00A0), (0x1680, 0x1680),
    (0x2000, 0x200A), (0x2028, 0x2029), (0x202F, 0x202F), (0x205F, 0x205F), (0x3000, 0x3000)]

/-- There are twenty-five white space characters. -/
example :
    whiteSpaceRanges.foldl (fun count range => count + (range.2 + 1 - range.1)) 0 = 25 := by
  decide

/-- Whether a character is white space. -/
def isWhiteSpace (c : Char) : Bool :=
  whiteSpaceRanges.any fun range => range.1 ≤ c.toNat && c.toNat ≤ range.2

/-- Whether a text consists of white space alone. -/
def isBlank (s : String) : Bool :=
  s.toList.all isWhiteSpace

/-- Every separator is white space. -/
theorem isWhiteSpace_of_isSeparator {c : Char} (h : isSeparator c = true) :
    isWhiteSpace c = true := by
  simp only [isSeparator, Bool.or_eq_true, decide_eq_true_eq] at h
  rcases h with (((rfl | rfl) | rfl) | rfl) | rfl <;> decide

end CurvePlot.Text
