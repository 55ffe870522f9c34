/-
Gridbook/Text/Blank.lean

Blank characters and trimming.  A blank is a character with the White_Space
property or one of the four information separators U+001C..U+001F.  `trim`
drops the blanks at both ends of a text and nothing else.

Main statement: every blank that core knows is a blank here
(`isBlank_of_isWhitespace`).
-/
namespace Gridbook.Text

/-! ### The class of blanks -/

/-- The code points of the White_Space property, as inclusive ranges. -/
def whiteSpaceRanges : List (Nat × Nat) :=
  [(0x09, 0x0D), (0x20, 0x20), (0x85, 0x85), (0xA0, 0xA0), (0x1680, 0x1680),
   (0x2000, 0x200A), (0x2028, 0x2029), (0x202F, 0x202F), (0x205F, 0x205F),
   (0x3000, 0x3000)]

/-- Has `c` the White_Space property? -/
def isWhiteSpace (c : Char) : Bool :=
  whiteSpaceRanges.any fun r => r.1 ≤ c.toNat && c.toNat ≤ r.2

/-- White space and the four information separators. -/
def isBlank (c : Char) : Bool :=
  isWhiteSpace c || (0x1C ≤ c.toNat && c.toNat ≤ 0x1F)

/-- The blanks of the ASCII range that end a line or separate words. -/
def isAsciiBlank (c : Char) : Bool :=
  (0x09 ≤ c.toNat && c.toNat ≤ 0x0D) || c.toNat == 0x20

theorem isBlank_of_isWhiteSpace {c : Char} (h : isWhiteSpace c) : isBlank c := by
  simp [isBlank, h]

theorem isBlank_of_isWhitespace {c : Char} (h : c.isWhitespace) : isBlank c := by
  simp only [Char.isWhitespace, Bool.or_eq_true, decide_eq_true_eq] at h
  rcases h with ((rfl | rfl) | rfl) | rfl <;> decide

/-! ### Trimming -/

/-- Drop the characters of class `p` at both ends. -/
def trimBy (p : Char → Bool) (cs : List Char) : List Char :=
  ((cs.dropWhile p).reverse.dropWhile p).reverse

/-- Drop the blanks at both ends. -/
def trim (cs : List Char) : List Char :=
  trimBy isBlank cs

/-- `trim` on strings. -/
def strip (s : String) : String :=
  String.ofList (trim s.toList)

end Gridbook.Text
