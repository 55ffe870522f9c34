/-
Gridbook/Number/Tabular.lean

Which texts of a table count as numbers.  A text is scanned up to its first NUL:
between ASCII blanks stands a decimal with ASCII digits, of which the first
seventeen make up the value, and an exponent of at most seventeen digits that is
kept in a word of 32 bits.  The value must not exceed the finite doubles.  The
words for infinity count when nothing stands beside them but a sign.
-/
import Gridbook.Number.Spelled
import Gridbook.Real.Parts

namespace Gridbook.Tabular

/-- The digits that make up the value, and the longest run of an exponent. -/
def countedDigits : Nat := 17

/-- The largest power of ten that is a finite double. -/
def largestExponent : Int := 308

/-- The value of a run of digits, one multiplication for each. -/
def accumulated (ds : List Char) : Float :=
  ds.foldl (fun x c => x * 10 + Float.ofNat (Text.digitValue c)) 0

/-- Whole numbers in a word of 32 bits. -/
def wrapped (n : Int) : Int :=
  n.bmod (twoTo 32)

/-- The value of an exponent's digits. -/
def exponentOf (ds : List Char) : Int :=
  ds.foldl (fun n c => wrapped (10 * n + Text.digitValue c)) 0

/-- An exponent at the start of a text, and what follows; zero if no mark is
there, and `none` if a mark has no digits. -/
def scanExponent? : List Char → Option (Int × List Char)
  | [] => some (0, [])
  | c :: cs =>
    if c = 'e' ∨ c = 'E' then
      let (sign, body) := Literal.splitSign cs
      let ds := (body.take countedDigits).takeWhile Char.isDigit
      let n := exponentOf ds
      if ds.isEmpty then none
      else some (if sign = ['-'] then wrapped (-n) else n, body.drop ds.length)
    else some (0, c :: cs)

/-- Is a value of counted digits, scaled by a power of ten, a finite double? -/
def isBounded (digits : List Char) (exponent : Int) : Bool :=
  if largestExponent < exponent then false
  else Real.isFinite (accumulated digits * Float.ofScientific 1 false exponent.toNat)

/-- Is the text, without its sign, a decimal with blanks at its end?  One
without point and exponent mark must be `complete`. -/
def isDecimal (complete : Bool) (cs : List Char) : Bool :=
  let whole := cs.takeWhile Char.isDigit
  let (point, fraction, rest) := Literal.splitFraction Char.isDigit (cs.dropWhile Char.isDigit)
  let counted := whole.take countedDigits
  let countedFraction := fraction.take (countedDigits - counted.length)
  match scanExponent? rest with
  | none => false
  | some (exponent, tail) =>
    let scale : Int := ((whole.length - counted.length : Nat) : Int) - countedFraction.length
    !(whole ++ fraction).isEmpty && tail.all Text.isAsciiBlank
      && isBounded (counted ++ countedFraction) (wrapped (scale + exponent))
      && (complete || !point.isEmpty || rest.length != tail.length)

/-- Does the text count as a number? -/
def isNumber (s : String) : Bool :=
  let cs := s.toList.takeWhile (· != '\x00')
  Spelled.isInfinityWord (Literal.splitSign cs).2
    || isDecimal (cs.length == s.length)
        (Literal.splitSign (cs.dropWhile Text.isAsciiBlank)).2

end Gridbook.Tabular
