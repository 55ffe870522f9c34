/-
Gridbook/Cell/Numeric.lean

Cells read as numbers.  The strict reading takes numbers and plain literals and
refuses all else; the lenient one also takes truth values and texts with money
signs and thousands separators, and has zero for what it cannot read; the
spelled one takes whatever a person may write for a double.

A whole number beyond the finite doubles is a fault in each of them.  A value of
a typed column reads as it would without its type, but a bit is strictly no
number and leniently zero.
-/
import Gridbook.Cell.Basic
import Gridbook.Number.Spelled

namespace Gridbook.Cell

/-- Why a cell cannot be converted. -/
inductive Fault where
  /-- A whole number that does not fit the numbers at hand. -/
  | overflow
  /-- A text or a list that holds no such value. -/
  | badValue
  /-- A cell of a kind that has no such value. -/
  | badKind
deriving Repr, DecidableEq

/-- The double nearest to a whole number. -/
def realOfWhole (n : Int) : Except Fault Float :=
  match Real.ofInt? n with
  | some x => .ok x
  | none => .error .overflow

/-- The text of a cell for people; there is none if a whole number in it is too
long for one. -/
def label? (c : Cell) : Except Fault String :=
  if c.hasText then .ok c.label else .error .badValue

/-! ### Readings -/

/-- The number, if it is finite. -/
def finiteNumber? (x : Float) : Option Number :=
  if Real.isFinite x then some (.real x) else none

/-- The strict reading: `none` for what is no plain finite number. -/
def strictNumber : Cell → Except Fault (Option Number)
  | number (.whole n) => do
    let _ ← realOfWhole n
    return some (.whole n)
  | number (.word w) => .ok (some (.word w))
  | number (.real x) => .ok (finiteNumber? x)
  | typed (.double x) => .ok (finiteNumber? x)
  | text s => .ok ((Literal.plainReal? (Text.trim s.toList)).map .real)
  | typed (.string s) => .ok ((Literal.plainReal? (Text.trim s.toList)).map .real)
  | _ => .ok none

/-- Is `c` a blank, a comma or a money sign? -/
def isNumberFormatting (c : Char) : Bool :=
  Text.isBlank c || c ∈ [',', '$', '€', '£', '¥']

/-- The value of a truth value as a number. -/
def boolReal (b : Bool) : Float :=
  if b then 1 else 0

/-- A number as a double. -/
def realOfNumber (n : Number) : Except Fault Float :=
  match n.toReal? with
  | some x => .ok x
  | none => .error .overflow

/-- The lenient reading of a text. -/
def lenientText (s : String) : Float :=
  (Literal.plainReal? (s.toList.filter fun c => !isNumberFormatting c)).getD 0

/-- The lenient reading: zero for what cannot be read. -/
def lenientNumber : Cell → Except Fault Float
  | bool b => .ok (boolReal b)
  | number n => (realOfNumber n).map fun x => if Real.isFinite x then x else 0
  | typed (.double x) => .ok (if Real.isFinite x then x else 0)
  | text s => .ok (lenientText s)
  | typed (.string s) => .ok (lenientText s)
  | _ => .ok 0

/-- The double that a cell spells. -/
def spelledNumber (c : Cell) : Except Fault Float :=
  match c.plain with
  | bool b => .ok (boolReal b)
  | number n => realOfNumber n
  | text s =>
    match Spelled.real? s with
    | some x => .ok x
    | none => .error .badValue
  | _ => .error .badKind

end Gridbook.Cell
