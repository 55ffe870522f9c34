/-
Gridbook/Store/Native.lean

The scalars that the store compares.  A truth value is one or zero, a text ends
at its first NUL, and a list or an object is its JSON text.

A number stands in a row as JSON.  A whole number of 64 bits is itself, and any
other number is read as a double: as the closest one, or by the arithmetic that
texts are read with, which is how the store is built (`Reader`).

A row that holds a value with no JSON form, at any depth, cannot be looked into.
-/
import Gridbook.Cell.Numeric
import Gridbook.Store.Numeral
import Gridbook.Store.Path

namespace Gridbook

/-- A scalar of the store. -/
inductive Native where
  | null
  | number (n : Number)
  | text (cs : List Char)
deriving Repr

/-- The double nearest to an integer; infinity beyond the finite ones. -/
def Native.realOf (n : Int) : Float :=
  Real.closest (n < 0) n.natAbs 1

/-! ### Numbers in rows -/

/-- How the JSON numbers of a row are read as doubles: as the closest ones, by the
C library, or with a significand of 64 bits, by the store itself.  A store is built
for one of the two. -/
inductive Reader where
  | closest
  | extended
deriving Repr, DecidableEq

attribute [class] Reader

/-- The build that is run, where no other one is meant. -/
instance (priority := low) : Reader := .closest

namespace Reader

/-- The double that a number is read as.  The JSON text of a double is the shortest
one, and the double is the closest to it. -/
def real (reader : Reader) (n : Number) : Float :=
  match reader, n with
  | extended, n => Numeral.leading (Json.numberToken n)
  | closest, .whole n => Native.realOf n
  | closest, .word w => Native.realOf w.toInt
  | closest, .real x => x

/-- The number that a number is read as; in a word there is room for a whole one. -/
def number (reader : Reader) : Number → Number
  | .whole n => if fitsWord n then .whole n else .real (reader.real (.whole n))
  | .word w => .word w
  | .real x => .real (reader.real (.real x))

end Reader

namespace Native

/-! ### Scalars of cells -/

/-- The scalar of a stored cell. -/
def ofCell [reader : Reader] : Cell → Native
  | .null => null
  | .bool b => number (.whole (if b then 1 else 0))
  | .number n => number (reader.number n)
  | .text s => text (s.toList.takeWhile (· != '\x00'))
  | c => text (Json.compact c)

/-! ### Rows that can be looked into -/

mutual

/-- Has every number in the cell a JSON form? -/
def wellFormed : Cell → Bool
  | .number (.real x) => Real.isFinite x
  | .list items => wellFormedItems items
  | .object members => wellFormedMembers members
  | _ => true

def wellFormedItems : List Cell → Bool
  | [] => true
  | c :: cs => wellFormed c && wellFormedItems cs

def wellFormedMembers : List (String × Cell) → Bool
  | [] => true
  | (_, c) :: ms => wellFormed c && wellFormedMembers ms

end

/-- The scalar that a column's path leads to in a row; null if there is none. -/
def extract [Reader] (path : List Path.Step) (fields : Fields) : Except Store.Failure Native :=
  if wellFormedMembers fields then
    (Path.walk (.object fields) path).map fun c => (c.map ofCell).getD null
  else .error .failed

/-! ### Readings -/

/-- The scalar as a double; null stays null. -/
def asReal : Native → Native
  | null => null
  | number n => number (.real (n.toReal?.getD 0))
  | text cs => number (.real (Numeral.leading cs))

/-- The scalar as a text; null has none. -/
def toText? : Native → Option (List Char)
  | null => none
  | number (.real x) => some (Numeral.text x)
  | number n => some n.text
  | text cs => some cs

/-! ### Order -/

/-- Null before numbers before texts. -/
def rank : Native → Nat
  | null => 0
  | number _ => 1
  | text _ => 2

/-- Numbers by value, texts by code points. -/
def compare : Native → Native → Ordering
  | number a, number b => a.compare b
  | text s, text t => Ord.compare (String.ofList s) (String.ofList t)
  | a, b => Ord.compare a.rank b.rank

/-- Is `a` before `b`?  Null is neither before nor after anything. -/
def isBefore (a b : Native) : Bool :=
  !(a matches null) && !(b matches null) && a.compare b == .lt

/-- Are both the same number or the same text? -/
def equals : Native → Native → Bool
  | number a, number b => a.compare b == .eq && !a.isNan
  | text s, text t => s == t
  | _, _ => false

end Native

end Gridbook
