import LineScript.Text.Alphabetic
import LineScript.Text.Numeric

/-!
# Blank and word characters

Blanks are the characters with the Unicode property `White_Space`. Word characters are the letters
and numbers of all scripts and the underscore; the runs of them are the words of a line.
-/

namespace LineScript.Text

/-- The code points with the property `White_Space`. -/
def blankRanges : Ranges :=
  [(0x9, 0xD), (0x20, 0x20), (0x85, 0x85), (0xA0, 0xA0), (0x1680, 0x1680), (0x2000, 0x200A),
   (0x2028, 0x2029), (0x202F, 0x202F), (0x205F, 0x205F), (0x3000, 0x3000)]

/-- Whether `c` is white space. -/
def isBlank (c : Char) : Bool :=
  blankRanges.has c

/-- Whether `c` may stand inside a word. -/
def isWordChar (c : Char) : Bool :=
  isAlphabetic c || isNumeric c || c == '_'

/-- An ASCII digit is a word character. -/
theorem isWordChar_of_isDigit {c : Char} (h : c.isDigit = true) : isWordChar c = true := by
  have hc : c.toNat < 0x80 := by
    simp [Char.isDigit, UInt32.le_iff_toNat_le] at h
    exact Nat.lt_of_le_of_lt h.2 (by decide)
  simp [isWordChar, isNumeric, hc, h]

end LineScript.Text
