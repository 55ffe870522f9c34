/-
Gridbook/Calendar/Reader.lean

Dates and instants read from ISO 8601 text: a day with `-`, `/` or nothing
between its numbers, and after a `T` or a blank the time of day with an optional
fraction of a second and an optional offset.
-/
import Gridbook.Calendar.Basic
import Gridbook.Power

namespace Gridbook

namespace Calendar

/-! ### Parts of a text -/

/-- A number of `least` to `most` ASCII digits at the start of a text. -/
def readNumber (least most : Nat) (cs : List Char) : Option (Nat × List Char) :=
  let ds := (cs.take most).takeWhile Char.isDigit
  if least ≤ ds.length then
    some (ds.foldl (fun n c => 10 * n + (c.toNat - '0'.toNat)) 0, cs.drop ds.length)
  else none

/-- Drop the character `c` at the start of a text. -/
def readChar (c : Char) : List Char → Option (List Char)
  | d :: cs => if d = c then some cs else none
  | [] => none

/-! ### Dates and times of day -/

/-- A month and a day: a separator before each of them, or two digits for both. -/
def readMonthDay (cs : List Char) : Option (Nat × Nat × List Char) := do
  let separator ← cs.head?
  if separator = '-' ∨ separator = '/' then
    let (month, cs) ← readNumber 1 2 (cs.drop 1)
    let (day, cs) ← readNumber 1 2 (← readChar separator cs)
    return (month, day, cs)
  else
    let (month, cs) ← readNumber 2 2 cs
    let (day, cs) ← readNumber 2 2 cs
    return (month, day, cs)

/-- `YYYY-M-D`, `YYYY/M/D` or `YYYYMMDD` at the start of a text. -/
def readDate (cs : List Char) : Option (Date × List Char) := do
  let (year, cs) ← readNumber 4 4 cs
  let (month, day, cs) ← readMonthDay cs
  let date ← Date.ofParts? year month day
  return (date, cs)

/-- Two digits, with or without a colon before them; 0 if neither is there. -/
def readPair (cs : List Char) : Option (Nat × List Char) :=
  match readChar ':' cs with
  | some rest => readNumber 2 2 rest
  | none => some ((readNumber 2 2 cs).getD (0, cs))

/-- `Z`, or a sign with `HH`, `HH:MM` or `HH:MM:SS`, or nothing; to the end of
the text. -/
def readOffset (cs : List Char) : Option (Option Int) :=
  match cs with
  | [] => some none
  | ['Z'] => some (some 0)
  | sign :: cs => do
    guard (sign = '+' ∨ sign = '-')
    let (h, cs) ← readNumber 2 2 cs
    let (m, cs) ← readPair cs
    let (s, cs) ← readPair cs
    guard (cs.isEmpty ∧ h < 24 ∧ m < 60 ∧ s < 60)
    let n : Int := (h * 60 + m) * 60 + s
    return some (if sign = '-' then -n else n)

/-- The first six digits of a fraction of a second, as microseconds. -/
def microsOf (ds : List Char) : Nat :=
  let six := ds.take 6
  six.foldl (fun n c => 10 * n + (c.toNat - '0'.toNat)) 0 * tenTo (6 - six.length)

/-- The microseconds of a fraction of a second, behind a full stop or a comma; 0
if it is not there. -/
def readMicros (cs : List Char) : Option (Nat × List Char) :=
  match (readChar '.' cs).or (readChar ',' cs) with
  | none => some (0, cs)
  | some rest =>
    let ds := rest.takeWhile Char.isDigit
    if ds.isEmpty then none else some (microsOf ds, rest.drop ds.length)

/-- `HH[:MM[:SS[.fff]]]` with an optional offset, to the end of the text. -/
def readTimeOfDay (date : Date) (cs : List Char) : Option Instant := do
  let (hour, cs) ← readNumber 1 2 cs
  let (minute, cs) ← readPair cs
  let (second, cs) ← readPair cs
  let (micro, cs) ← readMicros cs
  let offset ← readOffset cs
  guard (hour < 24 ∧ minute < 60 ∧ second < 60)
  return { date, hour, minute, second, micro, offset }

end Calendar

open Calendar in
/-- A date, alone or with a time of day after `T` or a blank. -/
def Instant.ofIso? (cs : List Char) : Option Instant := do
  let (date, rest) ← readDate cs
  match rest with
  | [] => return { date, hour := 0, minute := 0, second := 0, micro := 0, offset := none }
  | c :: rest =>
    guard (c = 'T' ∨ c = ' ')
    readTimeOfDay date rest

open Calendar in
/-- A date and nothing else. -/
def Date.ofIso? (cs : List Char) : Option Date := do
  let (date, rest) ← readDate cs
  guard rest.isEmpty
  return date

end Gridbook
