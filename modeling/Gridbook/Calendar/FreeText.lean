/-
Gridbook/Calendar/FreeText.lean

Texts that name a moment.  The forms are tried in turn: ISO 8601 text in its wide
reading, a time of the present day, a short date, and a phrase in free form.  A
number below 1000 is none of the later ones.

Main statement: a text that ISO 8601 tells something about is not looked at in
another form (`reading_of_iso`).
-/
import Gridbook.Calendar.Brief
import Gridbook.Calendar.IsoText
import Gridbook.Calendar.Phrase

namespace Gridbook.Calendar

/-! ### Numbers -/

/-- The powers of ten that a number may be scaled by. -/
def isScale (n : Int) : Bool :=
  -1021 ≤ n && n ≤ 1024

/-- The digits of a number that are looked at behind the point, less those before
it. -/
def countedDigits : Nat := 17

/-- Is the number below 1000?  One that is scaled too far is not told. -/
def isSmall (isNegative : Bool) (l : Literal) : Bool :=
  let fraction := l.fraction.take (countedDigits - l.whole.length)
  let scale := (l.exponent.map Literal.Exponent.value).getD 0 - fraction.length
  let n := Text.digitsValue (l.whole ++ fraction)
  isScale scale
    && (isNegative || decide (n * tenTo scale.toNat < 1000 * tenTo (-scale).toNat))

/-- Is the text a number below 1000 that does not start with a zero? -/
def isSmallNumber (cs : List Char) : Bool :=
  let (sign, body) := Literal.splitSign (cs.dropWhile Text.isAsciiBlank)
  match Literal.scan Char.isDigit body with
  | none => false
  | some (l, rest) =>
    cs.head? != some '0' && rest.all Text.isAsciiBlank && isSmall (sign == ['-']) l

/-! ### Times of the present day -/

/-- Does the text start with `H:MM` or `HH:MM`? -/
def startsWithTime (cs : List Char) : Bool :=
  (do
    let (hour, cs) ← readNumber 1 2 cs
    let (minute, _) ← readNumber 2 2 (← readChar ':' cs)
    return decide (hour < 24 ∧ minute < 60)).getD false

/-- The day that stands in for the present one: every phrase about the present
day counts in the same way on it. -/
def presentDay : Date := ⟨pivotYear, 1, 1⟩

/-- The day that stands in where no day is meant; it does not count. -/
def noDay : Date := ⟨1, 1, 1⟩

/-- A phrase in free form. -/
def phrase (standIn : Date) (cs : List Char) : Reading :=
  match Phrase.moment? standIn cs with
  | some m => .moment m
  | none => .nothing

/-! ### Texts -/

/-- A text in any form but ISO 8601. -/
def looseReading (cs : List Char) : Reading :=
  if isSmallNumber cs then .nothing
  else if startsWithTime cs then phrase presentDay cs
  else (Brief.reading cs).otherwise (phrase noDay cs)

/-- A text in any form. -/
def reading (cs : List Char) : Reading :=
  (IsoText.reading cs).otherwise (looseReading cs)

theorem reading_of_iso {cs : List Char} (h : IsoText.reading cs ≠ .other) :
    reading cs = IsoText.reading cs := by
  unfold reading
  cases hr : IsoText.reading cs with
  | other => exact absurd hr h
  | nothing => rfl
  | moment m => rfl

/-- The words for a missing moment. -/
def missingWords : List String := ["", "NaT", "nat", "NAT", "nan", "NaN", "NAN"]

/-- The words for the present moment. -/
def presentWords : List String := ["now", "today"]

/-- Does the text name a moment that counts? -/
def namesMoment (s : String) : Bool :=
  if missingWords.contains s then false
  else presentWords.contains s || (reading s.toList).counts

end Gridbook.Calendar
