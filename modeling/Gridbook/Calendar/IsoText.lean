/-
Gridbook/Calendar/IsoText.lean

Moments in the wide reading of ISO 8601: a year, a month of a year, a day, or a
day with a time of day after `T` or a blank.  The numbers of the day are divided
by one of `- . / \` and the blank, or stand together with two digits each; those
of the time of day are divided by `:` or stand together.  An offset may stand
apart, and blanks may stand at both ends.
-/
import Gridbook.Calendar.Moment
import Gridbook.Calendar.Reader
import Gridbook.Text.Blank
import Gridbook.Text.Digit

namespace Gridbook.Calendar.IsoText

/-! ### The day -/

/-- What may divide the numbers of a day. -/
def dividers : List Char := ['-', '.', '/', '\\', ' ']

/-- The divider between two numbers of a day, if one is there. -/
def splitDivider? : List Char → Option (Option Char × List Char)
  | [] => none
  | c :: cs =>
    if c.isDigit then some (none, c :: cs)
    else if dividers.contains c then some (some c, cs)
    else none

/-- A number of two digits, or of one where a divider stands before it. -/
def readPart (divided : Bool) (cs : List Char) : Option (Nat × List Char) :=
  readNumber (if divided then 1 else 2) 2 cs

/-- The divider once more. -/
def readDivider : Option Char → List Char → Option (List Char)
  | none, cs => some cs
  | some c, cs => readChar c cs

/-- A year, a month of a year or a day at the start of a text.  A text without
four digits at its start has year 0.  A month without divider needs a day, for
`YYYYMM` could be six digits of a day. -/
def readDay (cs : List Char) : Option (Date × List Char) := do
  guard !cs.isEmpty
  let (year, cs) := (readNumber 4 4 cs).getD (0, cs)
  if cs.isEmpty then return (⟨year, 1, 1⟩, [])
  let (divider, cs) ← splitDivider? cs
  let (month, cs) ← readPart divider.isSome cs
  guard (1 ≤ month ∧ month ≤ 12)
  if cs.isEmpty ∧ divider.isSome then return (⟨year, month, 1⟩, [])
  let (day, cs) ← readPart divider.isSome (← readDivider divider cs)
  let date ← Date.ofParts? year month day
  return (date, cs)

/-! ### The time of day -/

/-- A second of the day and the digits of its fraction. -/
structure Clock where
  second : Nat
  fraction : List Char
deriving Repr, DecidableEq

/-- The digits of a fraction that are looked at. -/
def longestFraction : Nat := 18

/-- A point and the digits after it, if it is there. -/
def splitFraction : List Char → List Char × List Char
  | '.' :: cs =>
    let ds := (cs.take longestFraction).takeWhile Char.isDigit
    (ds, cs.drop ds.length)
  | cs => ([], cs)

/-- The seconds at the start of a text, if they are there. -/
def readSeconds? (divided : Bool) (minutes : Nat) (cs : List Char) :
    Option (Clock × List Char) := do
  let follows := if divided then cs.head? = some ':' else cs.head?.any Char.isDigit
  if !follows then return (⟨60 * minutes, []⟩, cs)
  let (second, cs) ← readPart divided (if divided then cs.drop 1 else cs)
  guard (second < 60)
  let (fraction, cs) := splitFraction cs
  return (⟨60 * minutes + second, fraction⟩, cs)

/-- A time of day at the start of a text.  An hour of one digit needs minutes. -/
def readClock (cs : List Char) : Option (Clock × List Char) := do
  let (hour, rest) ← readNumber 1 2 cs
  guard (hour < 24)
  let divided := rest.head? = some ':'
  if divided ∨ rest.head?.any Char.isDigit then
    let (minute, rest) ← readPart divided (if divided then rest.drop 1 else rest)
    guard (minute < 60)
    readSeconds? divided (60 * hour + minute) rest
  else
    guard (rest.length + 2 = cs.length)
    return (⟨3600 * hour, []⟩, rest)

/-- The minutes of an offset at the start of a text, if anything is there. -/
def readOffsetMinutes (cs : List Char) : Option (Nat × List Char) :=
  if cs.isEmpty then some (0, [])
  else (readNumber 1 2 ((readChar ':' cs).getD cs)).filter fun r => r.1 < 60

/-- An offset to the end of a text: nothing, `Z`, or a sign with hours and
minutes. -/
def readOffset? (cs : List Char) : Option Int :=
  match cs.dropWhile Text.isAsciiBlank with
  | [] => some 0
  | 'Z' :: cs => if cs.all Text.isAsciiBlank then some 0 else none
  | sign :: cs => do
    guard (sign = '+' ∨ sign = '-')
    let (hour, cs) ← readNumber 1 2 cs
    let (minute, cs) ← readOffsetMinutes cs
    guard (hour < 24 ∧ cs.all Text.isAsciiBlank)
    let n : Int := 3600 * hour + 60 * minute
    return if sign = '-' then -n else n

/-! ### Texts -/

/-- The digits of a fraction of a second in units of 10⁻¹⁸. -/
def attosOf (ds : List Char) : Nat :=
  Text.digitsValue ds * tenTo (longestFraction - ds.length)

/-- What follows a day: nothing, or a time of day. -/
def readRest? (date : Date) : List Char → Option Moment
  | [] => some (Moment.ofDate date)
  | c :: cs => do
    guard (c = 'T' ∨ c = ' ')
    let (clock, cs) ← readClock cs
    let offset ← readOffset? cs
    return { date, second := clock.second, atto := attosOf clock.fraction, offset,
             isFine := decide (6 < clock.fraction.length) }

/-- The moment of a text.  A year behind a `-` lies before every moment; the `-`
says so only as the first character. -/
def reading (cs : List Char) : Reading :=
  let body := cs.dropWhile Text.isAsciiBlank
  match (do
    let (date, rest) ← readDay ((readChar '-' body).getD body)
    readRest? date rest) with
  | none => .other
  | some m => if cs.head? = some '-' then .nothing else .moment m

end Gridbook.Calendar.IsoText
