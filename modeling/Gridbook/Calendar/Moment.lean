/-
Gridbook/Calendar/Moment.lean

Moments that a text may name, and which of them count: those that a signed count
of nanoseconds since the start of 1970 reaches in 64 bits.  A text that is read
can have another form, or the right form and yet no moment, or name one; the
three are told apart so that only the first lets another form have its try
(`Reading.otherwise`).

Main statements: trying forms in turn is associative, and the form that no text
has changes nothing (`Reading.otherwise_assoc`, `Reading.other_otherwise`,
`Reading.otherwise_other`).
-/
import Gridbook.Calendar.Basic
import Gridbook.Power

namespace Gridbook.Calendar

/-! ### Moments -/

/-- A day, a time of that day and the offset from UTC in seconds, 0 if the text
has none. -/
structure Moment where
  date : Date
  /-- The second of the day. -/
  second : Nat
  /-- The fraction of a second, in units of 10⁻¹⁸. -/
  atto : Nat
  offset : Int
  /-- Does the text go beyond microseconds? -/
  isFine : Bool
deriving Repr, DecidableEq

namespace Moment

/-- The start of a day. -/
def ofDate (date : Date) : Moment :=
  { date, second := 0, atto := 0, offset := 0, isFine := false }

/-- The first day of the count. -/
def firstDay : Date := ⟨1970, 1, 1⟩

/-- Seconds since the start of 1970 by the clock on the wall. -/
def wallSeconds (m : Moment) : Int :=
  ((m.date.dayNumber : Int) - firstDay.dayNumber) * 86400 + m.second

/-- Units of 10⁻¹⁸ seconds since the start of 1970 by the clock on the wall. -/
def wallAttos (m : Moment) : Int :=
  m.wallSeconds * tenTo 18 + m.atto

/-- Nanoseconds since the start of 1970 UTC, rounded down. -/
def nanos (m : Moment) : Int :=
  (m.wallSeconds - m.offset) * tenTo 9 + (m.atto / tenTo 9 : Nat)

/-- The last nanosecond to either side of the start of 1970. -/
def lastNano : Int := (twoTo 63 : Int) - 1

/-- Does the count reach `n`? -/
def isReached (n last : Int) : Bool :=
  -last ≤ n && n ≤ last

/-- Does the moment count?  One finer than a microsecond must also be reached by
the clock on the wall. -/
def counts (m : Moment) : Bool :=
  isReached m.nanos lastNano && (!m.isFine || isReached m.wallAttos (lastNano * tenTo 9))

end Moment

/-! ### Readings -/

/-- What reading a text in one form comes to. -/
inductive Reading where
  /-- The text has another form. -/
  | other
  /-- The text has the form and names no moment. -/
  | nothing
  | moment (m : Moment)
deriving Repr, DecidableEq

namespace Reading

/-- The first reading, or the second where the first finds another form. -/
def otherwise (r : Reading) (next : Reading) : Reading :=
  match r with
  | other => next
  | nothing => nothing
  | moment m => moment m

/-- The start of a day, if there is one. -/
def ofDate? : Option Date → Reading
  | some d => moment (Moment.ofDate d)
  | none => nothing

/-- Is the reading a moment that counts? -/
def counts : Reading → Bool
  | moment m => m.counts
  | _ => false

theorem other_otherwise (r : Reading) : other.otherwise r = r := rfl

theorem otherwise_other (r : Reading) : r.otherwise other = r := by
  cases r <;> rfl

theorem otherwise_assoc (r s t : Reading) :
    (r.otherwise s).otherwise t = r.otherwise (s.otherwise t) := by
  cases r <;> rfl

end Reading

end Gridbook.Calendar
