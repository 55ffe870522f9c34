/-
Gridbook/Calendar/Spelled.lean

Dates and instants as they stand inside lists, objects and messages: the name
of what they are, with their parts in parentheses.  A time of day is written to
the minute, and further only as far as it has seconds or microseconds.
-/
import Gridbook.Calendar.Basic
import Gridbook.Text.Listed

namespace Gridbook

namespace Date

/-- The year, the month and the day. -/
def numerals (d : Date) : List (List Char) :=
  [d.year, d.month, d.day].map (Nat.toDigits 10)

def spelled (d : Date) : List Char :=
  Text.withParts "datetime.date" d.numerals

end Date

namespace Instant

/-- The hour and the minute, and what follows them up to the last part that is
not zero. -/
def clockNumerals (t : Instant) : List (List Char) :=
  let shown :=
    if t.micro ≠ 0 then [t.hour, t.minute, t.second, t.micro]
    else if t.second ≠ 0 then [t.hour, t.minute, t.second]
    else [t.hour, t.minute]
  shown.map (Nat.toDigits 10)

/-- A span of less than a day to either side: one downwards is a whole day down
and some seconds up. -/
def spanSpelled (seconds : Int) : List Char :=
  let up := "seconds=".toList ++ Nat.toDigits 10 (seconds.emod 86400).toNat
  Text.withParts "datetime.timedelta"
    (if seconds < 0 then ["days=-1".toList, up] else [up])

/-- An offset from UTC. -/
def offsetSpelled (offset : Int) : List Char :=
  if offset = 0 then "datetime.timezone.utc".toList
  else Text.withParts "datetime.timezone" [spanSpelled offset]

def spelled (t : Instant) : List Char :=
  let zone := t.offset.toList.map fun o => "tzinfo=".toList ++ offsetSpelled o
  Text.withParts "datetime.datetime" (t.date.numerals ++ t.clockNumerals ++ zone)

end Instant

end Gridbook
