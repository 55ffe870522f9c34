/-
Gridbook/Number/Literal.lean

Number literals: digits with an optional fraction and an optional exponent, at
least one digit before or after the point.  `Literal.scan` takes the longest
literal at the start of a text and keeps its parts; `Literal.text` writes the
parts back; `Literal.toReal` is the nearest double.

Main statements: scanning loses nothing (`text_append_of_scan`), and a scanned
literal has a digit (`digits_ne_nil_of_scan`).
-/
import Gridbook.Text.Digit

namespace Gridbook

/-- The exponent of a literal: its mark, its sign if it has one, its digits. -/
structure Literal.Exponent where
  mark : Char
  sign : List Char
  digits : List Char
deriving Repr, DecidableEq

/-- A literal by its parts. -/
structure Literal where
  whole : List Char
  /-- The point, if there is one. -/
  point : List Char
  fraction : List Char
  exponent : Option Literal.Exponent
deriving Repr, DecidableEq

namespace Literal

/-! ### Text and value -/

def Exponent.text (e : Exponent) : List Char :=
  e.mark :: (e.sign ++ e.digits)

/-- The exponent as a number. -/
def Exponent.value (e : Exponent) : Int :=
  let n : Int := Text.digitsValue e.digits
  if e.sign = ['-'] then -n else n

/-- The text that a literal was scanned from. -/
def text (l : Literal) : List Char :=
  l.whole ++ l.point ++ l.fraction ++ (l.exponent.map Exponent.text).getD []

/-- The power of ten that the digits, read as one number, are scaled by. -/
def scale (l : Literal) : Int :=
  (l.exponent.map Exponent.value).getD 0 - l.fraction.length

/-- The nearest double; infinity beyond the finite ones. -/
def toReal (l : Literal) : Float :=
  Float.ofScientific (Text.digitsValue (l.whole ++ l.fraction))
    (l.scale < 0) l.scale.natAbs

/-! ### Scanning -/

/-- A sign at the start of a text, if there is one, and what follows. -/
def splitSign : List Char → List Char × List Char
  | '+' :: cs => (['+'], cs)
  | '-' :: cs => (['-'], cs)
  | cs => ([], cs)

/-- An exponent at the start of a text, if there is one, and what follows. -/
def scanExponent (digit : Char → Bool) : List Char → Option Exponent × List Char
  | [] => (none, [])
  | c :: cs =>
    let (sign, rest) := splitSign cs
    if (c = 'e' ∨ c = 'E') ∧ rest.takeWhile digit ≠ [] then
      (some ⟨c, sign, rest.takeWhile digit⟩, rest.dropWhile digit)
    else (none, c :: cs)

/-- A point and the digits after it at the start of a text, if there is a
point, and what follows. -/
def splitFraction (digit : Char → Bool) : List Char → List Char × List Char × List Char
  | '.' :: cs => (['.'], cs.takeWhile digit, cs.dropWhile digit)
  | cs => ([], [], cs)

/-- The longest literal at the start of a text, and what follows, where
`digit` says which characters are digits. -/
def scan (digit : Char → Bool) (cs : List Char) : Option (Literal × List Char) :=
  let whole := cs.takeWhile digit
  let (point, fraction, afterFraction) := splitFraction digit (cs.dropWhile digit)
  if whole = [] ∧ fraction = [] then none
  else
    let (exponent, rest) := scanExponent digit afterFraction
    some (⟨whole, point, fraction, exponent⟩, rest)

theorem append_splitSign (cs : List Char) :
    (splitSign cs).1 ++ (splitSign cs).2 = cs := by
  unfold splitSign; split <;> rfl

theorem append_splitFraction (digit : Char → Bool) (cs : List Char) :
    (splitFraction digit cs).1
      ++ ((splitFraction digit cs).2.1 ++ (splitFraction digit cs).2.2) = cs := by
  unfold splitFraction
  split
  · simp [List.takeWhile_append_dropWhile]
  · rfl

theorem text_append_scanExponent (digit : Char → Bool) (cs : List Char) :
    ((scanExponent digit cs).1.map Exponent.text).getD [] ++ (scanExponent digit cs).2 = cs := by
  cases cs with
  | nil => rfl
  | cons c cs =>
    have h := append_splitSign cs
    simp only [scanExponent]
    split
    · simp [Exponent.text, h]
    · rfl

theorem text_append_of_scan {digit : Char → Bool} {cs rest : List Char} {l : Literal}
    (h : scan digit cs = some (l, rest)) : l.text ++ rest = cs := by
  simp only [scan] at h
  split at h
  · cases h
  · cases h
    have hf := append_splitFraction digit (cs.dropWhile digit)
    have he := text_append_scanExponent digit
    simp only [text, List.append_assoc, he, hf, List.takeWhile_append_dropWhile]

theorem digits_ne_nil_of_scan {digit : Char → Bool} {cs rest : List Char} {l : Literal}
    (h : scan digit cs = some (l, rest)) : l.whole ++ l.fraction ≠ [] := by
  simp only [scan] at h
  split at h
  · cases h
  · next hd => cases h; simpa using hd

/-! ### Whole texts -/

/-- A literal with an optional sign and nothing else, with digits of any
script: its nearest double. -/
def plainReal? (cs : List Char) : Option Float :=
  let (sign, body) := splitSign cs
  match scan Text.isDigit body with
  | some (l, []) => some (if sign = ['-'] then -l.toReal else l.toReal)
  | _ => none

end Literal

end Gridbook
