/-
Gridbook/Calendar/Draft.lean

What a phrase has said of a date so far: up to three numbers for year, month and
day in the order of the text, which of them is surely the year or the month, and
the time of day.  `Draft.dayParts?` decides which number is which: what is
certain first, then a number above 31 is a year, one above 12 a day, and
otherwise the month stands before the day and the year last.

Main statements: a short year is read as one within fifty years of the pivot
(`fullYear_near`), and no draft of more than three numbers is decided
(`Draft.dayParts?_eq_none`).
-/
import Gridbook.Calendar.Moment
import Gridbook.Calendar.Token

namespace Gridbook.Calendar

/-- The parts of a date that a phrase has named. -/
structure DayParts where
  year : Option Nat
  month : Option Nat
  day : Option Nat
deriving Repr, DecidableEq

/-- What a phrase has said of a moment so far. -/
structure Draft where
  /-- The numbers of the date, in the order of the text. -/
  parts : List Nat := []
  /-- The place among the numbers that is surely the year's. -/
  yearAt : Option Nat := none
  /-- The place among the numbers that is surely the month's. -/
  monthAt : Option Nat := none
  hour : Option Nat := none
  minute : Option Nat := none
  second : Option Nat := none
  micro : Nat := 0
  zone : Option (List Char) := none
  /-- The offset from UTC in seconds. -/
  offset : Option Int := none
deriving Repr, DecidableEq

/-! ### Two-digit years -/

/-- The year that two-digit years are counted from. -/
def pivotYear : Nat := 2026

/-- The year that a number below 100 is short for: the one of its endings that
lies within fifty years of the pivot.  Other numbers are years themselves. -/
def fullYear (y : Nat) : Nat :=
  if 100 ≤ y then y
  else
    let inCentury := pivotYear / 100 * 100 + y
    if pivotYear + 50 ≤ inCentury then inCentury - 100
    else if inCentury + 50 < pivotYear then inCentury + 100
    else inCentury

theorem fullYear_near {y : Nat} (h : y < 100) :
    pivotYear - 50 ≤ fullYear y ∧ fullYear y < pivotYear + 50 := by
  have all : ∀ y : Fin 100, pivotYear - 50 ≤ fullYear y ∧ fullYear y < pivotYear + 50 := by
    decide
  exact all ⟨y, h⟩

namespace Draft

/-! ### Numbers of the date -/

/-- One more number. -/
def addPart (d : Draft) (n : Nat) : Draft :=
  { d with parts := d.parts ++ [n] }

/-- One more number that is surely the year, if the year is not yet known. -/
def addYear? (d : Draft) (n : Nat) : Option Draft :=
  if d.yearAt.isSome then none
  else some { d.addPart n with yearAt := some d.parts.length }

/-- One more number that is surely the month, if the month is not yet known. -/
def addMonth? (d : Draft) (n : Nat) : Option Draft :=
  if d.monthAt.isSome then none
  else some { d.addPart n with monthAt := some d.parts.length }

/-- One more number by its digits: more than two of them write a year. -/
def addDigits? (d : Draft) (ds : List Char) : Option Draft :=
  if 2 < ds.length then d.addYear? (Text.digitsValue ds)
  else some (d.addPart (Text.digitsValue ds))

/-- One more number by its token, which must have no fraction. -/
def addToken? (d : Draft) : Token → Option Draft
  | .number ds none => d.addDigits? ds
  | _ => none

/-- One more number by its value without the fraction: one above 100 is a year. -/
def addValue? (d : Draft) (whole : Nat) (hasFraction : Bool) : Option Draft :=
  if 100 < whole ∨ (100 = whole ∧ hasFraction) then d.addYear? whole
  else some (d.addPart whole)

/-- The number at a place. -/
def part (d : Draft) (i : Nat) : Nat :=
  d.parts.getD i 0

/-- Can the number be the day beside what is known of the month and the year?
An unknown year may be a leap year. -/
def couldBeDay (d : Draft) (whole : Nat) (hasFraction : Bool) : Bool :=
  let most :=
    match d.monthAt, d.yearAt with
    | none, _ => 31
    | some m, none => Date.daysIn 2000 (d.part m)
    | some m, some y => Date.daysIn (d.part y) (d.part m)
  1 ≤ whole && (whole < most || (whole = most && !hasFraction))

/-! ### Year, month and day -/

/-- Three numbers of which year and month have sure places: the day has the
third. -/
def certain (d : Draft) (y m : Nat) : DayParts :=
  ⟨some (d.part y), some (d.part m),
    if d.parts.length = 3 then some (d.part (3 - y - m)) else none⟩

/-- Two numbers, of which the first may surely be the month, or the second. -/
def ofPair (monthAt : Option Nat) (a b : Nat) : DayParts :=
  match monthAt with
  | some i =>
    let (month, other) := if i = 0 then (a, b) else (b, a)
    if 31 < other then ⟨some other, some month, none⟩ else ⟨none, some month, some other⟩
  | none =>
    if 31 < a then ⟨some a, some b, none⟩
    else if 31 < b then ⟨some b, some a, none⟩
    else ⟨none, some a, some b⟩

/-- Three numbers, of which at most one has a sure place. -/
def ofTriple (monthAt yearAt : Option Nat) (a b c : Nat) : DayParts :=
  match monthAt with
  | some 0 => if 31 < b then ⟨some b, some a, some c⟩ else ⟨some c, some a, some b⟩
  | some 1 => if 31 < a then ⟨some a, some b, some c⟩ else ⟨some c, some b, some a⟩
  | some _ => if 31 < b then ⟨some b, some c, some a⟩ else ⟨some a, some c, some b⟩
  | none =>
    if 31 < a ∨ yearAt = some 0 then ⟨some a, some b, some c⟩
    else if 12 < a then ⟨some c, some b, some a⟩
    else ⟨some c, some a, some b⟩

/-- Year, month and day of a draft with at most three numbers. -/
def dayParts? (d : Draft) : Option DayParts :=
  match d.parts, d.yearAt, d.monthAt with
  | [], _, _ => some ⟨none, none, none⟩
  | [a], some _, _ => some ⟨some a, none, none⟩
  | [a], none, some _ => some ⟨none, some a, none⟩
  | [a], none, none => some (if 31 < a then ⟨some a, none, none⟩ else ⟨none, none, some a⟩)
  | [_, _], some y, some m => some (d.certain y m)
  | [a, b], _, monthAt => some (ofPair monthAt a b)
  | [_, _, _], some y, some m => some (d.certain y m)
  | [a, b, c], yearAt, monthAt => some (ofTriple monthAt yearAt a b c)
  | _, _, _ => none

theorem dayParts?_eq_none {d : Draft} (h : 3 < d.parts.length) : d.dayParts? = none := by
  obtain ⟨parts, yearAt, monthAt, _, _, _, _, _, _⟩ := d
  match parts, h with
  | _ :: _ :: _ :: _ :: _, _ => simp [dayParts?]

/-! ### The moment -/

/-- Has the phrase said anything? -/
def isSaid (p : DayParts) (d : Draft) : Bool :=
  p.year.isSome || p.month.isSome || p.day.isSome
    || d.hour.isSome || d.minute.isSome || d.second.isSome

/-- The offset: none by a name of UTC, otherwise the one that was said, if it is
less than a day. -/
def offset? (d : Draft) : Option Int :=
  if d.zone.any Token.isUniversal then some 0
  else
    let n := d.offset.getD 0
    if n.natAbs < 86400 then some n else none

/-- The year of the date: a number that is not surely the year may be short. -/
def yearOf (d : Draft) (p : DayParts) (year : Nat) : Nat :=
  match p.year with
  | none => year
  | some y => if d.yearAt.isSome then y else fullYear y

/-- The moment that a draft comes to, where `standIn` fills in for what it does
not say of the date. -/
def moment? (standIn : Date) (d : Draft) : Option Moment := do
  let p ← d.dayParts?
  guard (isSaid p d)
  let year := d.yearOf p standIn.year
  guard (1 ≤ year ∧ year ≤ 9999)
  let date ← Date.ofParts? year (p.month.getD standIn.month) (p.day.getD standIn.day)
  let hour := d.hour.getD 0
  let minute := d.minute.getD 0
  let second := d.second.getD 0
  guard (hour < 24 ∧ minute < 60 ∧ second < 60)
  let offset ← d.offset?
  return { date, second := 3600 * hour + 60 * minute + second, atto := d.micro * tenTo 12,
           offset, isFine := false }

end Draft

end Gridbook.Calendar
