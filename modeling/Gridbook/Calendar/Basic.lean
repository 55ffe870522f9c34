/-
Gridbook/Calendar/Basic.lean

Dates and times of day of the Gregorian calendar, and their ISO 8601 text.

Main statement: a date that `Date.ofParts?` accepts has a month 1..12 and a day
of that month (`Date.ofParts?_isValid`).
-/
namespace Gridbook

/-- A day of the calendar. -/
structure Date where
  year : Nat
  month : Nat
  day : Nat
deriving Repr, DecidableEq

/-- A date with a time of day and, if known, an offset from UTC in seconds. -/
structure Instant where
  date : Date
  hour : Nat
  minute : Nat
  second : Nat
  micro : Nat
  offset : Option Int
deriving Repr, DecidableEq

namespace Date

/-! ### The calendar -/

def isLeap (year : Nat) : Bool :=
  year % 4 == 0 && (year % 100 != 0 || year % 400 == 0)

/-- The number of days of a month; 0 for what is no month. -/
def daysIn (year month : Nat) : Nat :=
  match month with
  | 1 | 3 | 5 | 7 | 8 | 10 | 12 => 31
  | 4 | 6 | 9 | 11 => 30
  | 2 => if isLeap year then 29 else 28
  | _ => 0

/-- Does the calendar have this day? -/
def isValid (d : Date) : Bool :=
  1 ≤ d.day && d.day ≤ daysIn d.year d.month

/-- The day, if the calendar has it. -/
def ofParts? (year month day : Nat) : Option Date :=
  let d : Date := ⟨year, month, day⟩
  if d.isValid then some d else none

theorem ofParts?_isValid {year month day : Nat} {d : Date}
    (h : ofParts? year month day = some d) : d.isValid := by
  simp only [ofParts?] at h
  split at h
  · next hv => cases h; exact hv
  · cases h

/-- The days before the given one, counted from 0000-01-01. -/
def dayNumber (d : Date) : Nat :=
  let before := d.year - 1
  let leaps := if d.year = 0 then 0 else 1 + before / 4 - before / 100 + before / 400
  365 * d.year + leaps
    + (List.range (d.month - 1)).foldl (fun n m => n + daysIn d.year (m + 1)) 0 + (d.day - 1)

end Date

/-! ### ISO text -/

/-- `n` in decimal with at least `width` digits. -/
def padded (width n : Nat) : List Char :=
  let ds := Nat.toDigits 10 n
  List.replicate (width - ds.length) '0' ++ ds

/-- `YYYY-MM-DD`. -/
def Date.iso (d : Date) : List Char :=
  padded 4 d.year ++ '-' :: padded 2 d.month ++ '-' :: padded 2 d.day

namespace Instant

/-- `+HH:MM`, with seconds if there are any. -/
def offsetText (offset : Int) : List Char :=
  let n := offset.natAbs
  (if offset < 0 then '-' else '+') :: padded 2 (n / 3600) ++ ':' :: padded 2 (n / 60 % 60)
    ++ if n % 60 = 0 then [] else ':' :: padded 2 (n % 60)

/-- Date, separator, time of day to the second or the microsecond, offset. -/
def isoWith (separator : Char) (t : Instant) : List Char :=
  t.date.iso ++ separator :: padded 2 t.hour ++ ':' :: padded 2 t.minute
    ++ ':' :: padded 2 t.second
    ++ (if t.micro = 0 then [] else '.' :: padded 6 t.micro)
    ++ (match t.offset with
        | none => []
        | some o => offsetText o)

def iso (t : Instant) : List Char :=
  t.isoWith 'T'

/-- Date and time of day to the microsecond, without the offset. -/
def stamp (t : Instant) : List Char :=
  t.date.iso ++ ' ' :: padded 2 t.hour ++ ':' :: padded 2 t.minute ++ ':' :: padded 2 t.second
    ++ '.' :: padded 6 t.micro

/-- Microseconds since the start of year 0, by the clock on the wall. -/
def micros (t : Instant) : Nat :=
  ((t.date.dayNumber * 24 + t.hour) * 60 + t.minute) * 60000000
    + t.second * 1000000 + t.micro

end Instant

end Gridbook
