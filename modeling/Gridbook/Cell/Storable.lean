/-
Gridbook/Cell/Storable.lean

The stored form of a cell.  A missing value is stored as null, a date or an
instant as its ISO text, another value of a typed column without its type, and
all else as it is.  A list of one element is missing when the element is, down
to a depth of 64 lists, below which nothing is missing; of any other list it
cannot be said whether it is missing, so it has no stored form.

`written?` is what a cell becomes in the store's text form, which has no words,
bits, dates or instants inside lists and objects.
-/
import Gridbook.Cell.Numeric

namespace Gridbook.Cell

/-- The depth of lists down to which a missing element is looked for. -/
def deepestList : Nat := 64

mutual

/-- Does the cell, inside of `depth` lists, stand for a missing value? -/
def missing? (depth : Nat) : Cell → Except Fault Bool
  | list items => if depth < deepestList then onlyMissing? (depth + 1) items else .ok false
  | c => .ok c.isMissing

/-- Does the only element of a list stand for a missing value? -/
def onlyMissing? (depth : Nat) : List Cell → Except Fault Bool
  | [c] => missing? depth c
  | _ => .error .badValue

end

/-- A cell that is not missing, as it is stored. -/
def stored : Cell → Cell
  | typed (.date d) => text (String.ofList d.iso)
  | typed (.instant t) => text (String.ofList t.iso)
  | typed .noTime => null
  | c => c.plain

/-- The stored form of a cell. -/
def toStored (c : Cell) : Except Fault Cell := do
  if ← missing? 0 c then return null else return c.stored

mutual

/-- The cell as the store's text form gives it back, if it can be written. -/
def written? : Cell → Option Cell
  | number (.word _) => none
  | typed (.double x) => some (number (.real x))
  | typed (.string s) => some (text s)
  | typed _ => none
  | list items => (writtenItems? items).map list
  | object members => (writtenMembers? members).map object
  | c => some c

def writtenItems? : List Cell → Option (List Cell)
  | [] => some []
  | c :: cs => do
    let c ← written? c
    let cs ← writtenItems? cs
    return c :: cs

def writtenMembers? : List (String × Cell) → Option (List (String × Cell))
  | [] => some []
  | (k, c) :: ms => do
    let c ← written? c
    let ms ← writtenMembers? ms
    return (k, c) :: ms

end

end Gridbook.Cell
