/-
Gridbook/Calendar/Brief.lean

Short dates with a fixed place for each of their parts: day, month and year as
numbers between dividers, month and year, a year alone, a quarter of a year, and
a month's short name with a year.
-/
import Gridbook.Calendar.Moment
import Gridbook.Calendar.Reader
import Gridbook.Calendar.Token
import Gridbook.Number.Spelled

namespace Gridbook.Calendar.Brief

/-! ### Numbers between dividers -/

/-- What may divide the numbers. -/
def dividers : List Char := [' ', '-', '.', '/']

/-- Drop a divider at the start of a text. -/
def dropDivider? : List Char → Option (List Char)
  | c :: cs => if dividers.contains c then some cs else none
  | [] => none

/-- A year of four digits, from 1000 on, and nothing else. -/
def fullYear? (cs : List Char) : Option Nat := do
  let (year, cs) ← readNumber 4 4 cs
  guard (cs.isEmpty ∧ 1000 ≤ year)
  return year

/-- `MM/DD/YYYY`, with one or two digits for month and day and with any divider:
the two numbers and the year. -/
def monthDayYear? (cs : List Char) : Option (Nat × Nat × Nat) := do
  let (month, cs) ← readNumber 1 2 cs
  let (day, cs) ← readNumber 1 2 (← dropDivider? cs)
  let year ← fullYear? (← dropDivider? cs)
  return (month, day, year)

/-- `MM/YYYY`, with any divider but the full stop, which could be the point of a
number. -/
def monthYear? (cs : List Char) : Option (Nat × Nat) := do
  let (month, cs) ← readNumber 2 2 cs
  guard (cs.head? ≠ some '.')
  let year ← fullYear? (← dropDivider? cs)
  return (month, year)

/-- The day of a year by two numbers: the month comes first, unless only the
second number can be a month. -/
def dayOfYear? (year a b : Nat) : Option Date :=
  if 12 < a ∧ b ≤ 12 then Date.ofParts? year b a else Date.ofParts? year a b

/-- Numbers between dividers. -/
def divided (cs : List Char) : Reading :=
  match monthDayYear? cs, monthYear? cs with
  | some (a, b, year), _ => Reading.ofDate? (dayOfYear? year a b)
  | none, some (month, year) => Reading.ofDate? (Date.ofParts? year month 1)
  | none, none => .other

/-! ### Years and quarters -/

/-- A year that the calendar counts. -/
def isYear (y : Int) : Bool :=
  1 ≤ y && y ≤ 9999

/-- The first day of a month of a year that the calendar counts. -/
def firstOf (year : Int) (month : Nat) : Reading :=
  if isYear year then Reading.ofDate? (Date.ofParts? year.toNat month 1) else .other

/-- A year in four characters. -/
def year (cs : List Char) : Reading :=
  match Spelled.whole? cs with
  | some y => if cs.length = 4 then firstOf y 1 else .other
  | none => .other

/-- The texts of quarter and year, and whether the year is short, in a text with
`Q` at the place `i`: `1Q05`, `1Q-05`, `1Q2005`, `1Q-2005`, or the year first. -/
def quarterTexts? (cs : List Char) (i : Nat) : Option (List Char × List Char × Bool) :=
  let n := cs.length
  let isShort (beside : Option Char) := n = 4 || (n = 5 && beside == some '-')
  let isFull (beside : Option Char) := n = 6 || (n = 7 && beside == some '-')
  let lastOf (k : Nat) := cs.drop (n - k)
  if i = 1 then
    if isShort cs[2]? then some (cs.take 1, lastOf 2, true)
    else if isFull cs[2]? then some (cs.take 1, lastOf 4, false)
    else none
  else if i ≤ 3 then
    if isShort cs[i - 1]? then some (lastOf 1, cs.take 2, true) else none
  else if isFull cs[i - 1]? then some (lastOf 1, cs.take 4, false)
  else none

/-- A quarter of a year; a short year is of this century. -/
def quarter (cs : List Char) : Reading :=
  let i := 1 + (cs.drop 1).findIdx fun c => c = 'Q' || c = 'q'
  if 4 ≤ cs.length ∧ cs.length ≤ 7 ∧ i < cs.length ∧ i ≤ 5 then
    match (do
      let (q, y, isShort) ← quarterTexts? cs i
      return ((← Spelled.whole? q), (← Spelled.whole? y) + if isShort then 2000 else 0)) with
    | none => .other
    | some (q, y) =>
      if 1 ≤ q ∧ q ≤ 4 then firstOf y (3 * (q.toNat - 1) + 1) else .nothing
  else .other

/-! ### Months by name -/

/-- The month's short name, blanks, and a year of four digits. -/
def namedMonth (cs : List Char) : Reading :=
  let blanks := (cs.drop 3).takeWhile Text.isBlank
  let digits := (cs.drop 3).dropWhile Text.isBlank
  match (Token.word (cs.take 3)).month? with
  | none => .other
  | some month =>
    if !blanks.isEmpty ∧ digits.length = 4 ∧ digits.all Text.isDigit then
      firstOf (Text.digitsValue digits) month
    else .other

/-! ### Texts -/

/-- A short date. -/
def reading (cs : List Char) : Reading :=
  ((((divided cs).otherwise (year cs)).otherwise (quarter cs))).otherwise (namedMonth cs)

end Gridbook.Calendar.Brief
