/-
Gridbook/Cell/Kind.lean

The kind of a column, judged by a sample of its cells: numbers if more than
four in five of them read as numbers, else dates if more than four in five are
texts that name a moment, else text.
-/
import Gridbook.Calendar.FreeText
import Gridbook.Cell.Numeric
import Gridbook.Number.Tabular

namespace Gridbook

/-- What the cells of a column mostly are. -/
inductive Kind where
  | number
  | date
  | text
deriving Repr, DecidableEq

namespace Kind

def name : Kind → String
  | number => "number"
  | date => "date"
  | text => "text"

/-- Does the cell read as a number? -/
def isNumeric (c : Cell) : Except Cell.Fault Bool :=
  match c.plain with
  | .bool _ => .ok true
  | .number n => (Cell.realOfNumber n).map fun x => !x.isNaN
  | .text s => .ok (Tabular.isNumber s)
  | _ => .ok false

/-- Is the cell a text that names a moment? -/
def isDate (c : Cell) : Bool :=
  match c.plain with
  | .text s => Calendar.namesMoment s
  | _ => false

/-- Is `part` of `total` more than four in five? -/
def isMost (part total : Nat) : Bool :=
  4 * total < 5 * part

/-- The kind that a sample of cells shows. -/
def ofCells (cells : List Cell) : Except Cell.Fault Kind := do
  let numeric ← cells.mapM isNumeric
  if isMost (numeric.count true) cells.length then return number
  else if isMost (cells.countP isDate) cells.length then return date
  else return text

end Kind

end Gridbook
