/-
Gridbook/Upload.lean

Tables that are read in.  Every row must have no more cells than the table has
columns, and one row as many; short rows end in nulls.

The cells of a typed table take the type of their column: whole numbers in a
column that also holds doubles or missing values become doubles.  A column with
anything but numbers, or with whole numbers that no machine word holds, keeps
its cells as they are.

Labels that are equal values stand for one column, even where they are written
differently, as one and 1.0 are: the first one names it, and the last one gives
its cells.  Of columns whose names are written alike the last one counts.
-/
import Gridbook.Cell.Storable

namespace Gridbook

/-- A table as it comes in: the labels of its columns, and its rows. -/
structure Upload where
  labels : List Cell
  rows : List (List Cell)
  /-- Do the columns have types? -/
  typed : Bool
deriving Repr

namespace Upload

/-- The names of the columns. -/
def columns (u : Upload) : Except Cell.Fault (List String) :=
  u.labels.mapM Cell.label?

/-! ### Typed columns -/

/-- What has been seen of a column. -/
structure Seen where
  /-- A null, before which whole numbers have to fit a word. -/
  null : Bool
  /-- A double, not-a-number included. -/
  real : Bool
  whole : Bool
  /-- A value that is no number. -/
  other : Bool
  /-- A whole number beyond the signed words of 64 bits. -/
  large : Bool
  /-- A negative whole number, or one of a column of signed words. -/
  signed : Bool

def Seen.nothing : Seen :=
  ⟨false, false, false, false, false, false⟩

/-- Has the column a whole number that no one type of words can hold? -/
def Seen.hasNoWord (seen : Seen) (n : Int) : Bool :=
  (seen.large && seen.signed) || n < -(twoTo 63 : Int) || twoTo 64 ≤ n

/-- Note a whole number; `none` if no type of words can hold the column. -/
def Seen.noteWhole (seen : Seen) (n : Int) (isWord : Bool) : Option Seen :=
  if seen.null then some { seen with whole := true }
  else
    let noted := { seen with
      whole := true
      large := seen.large || (twoTo 63 ≤ n && n < twoTo 64)
      signed := seen.signed || isWord || (-(twoTo 63 : Int) ≤ n && n < 0) }
    if noted.hasNoWord n then none else some noted

/-- Note a cell.  `none` means that the column keeps its cells whatever
follows. -/
def Seen.note (seen : Seen) : Cell → Except Cell.Fault (Option Seen)
  | .null => .ok (some { seen with null := true })
  | .bool _ => .ok (some { seen with other := true })
  | .typed (.bit _) => .ok (some { seen with other := true })
  | .typed .noTime => .ok (some { seen with other := true })
  | .number (.real _) => .ok (some { seen with real := true })
  | .typed (.double _) => .ok (some { seen with real := true })
  | .number (.whole n) => (Cell.realOfWhole n).map fun _ => seen.noteWhole n false
  | .number (.word w) => .ok (seen.noteWhole w.toInt true)
  | _ => .ok none

/-- Look through the cells of a column. -/
def seenFrom (seen : Seen) : List Cell → Except Cell.Fault (Option Seen)
  | [] => .ok (some seen)
  | c :: cs =>
    match seen.note c with
    | .ok (some noted) => seenFrom noted cs
    | .ok none => .ok none
    | .error f => .error f

/-- Do the whole numbers of the column become doubles? -/
def Seen.becomesReal (seen : Seen) : Bool :=
  (seen.null || seen.real) && !seen.other

/-- A number as a double. -/
def toRealCell : Cell → Cell
  | .number n => .number (.real (n.toReal?.getD 0))
  | c => c

/-- The cells of a column in the column's type. -/
def typedColumn (cells : List Cell) : Except Cell.Fault (List Cell) :=
  (seenFrom .nothing cells).map fun
    | some seen => if seen.becomesReal then cells.map toRealCell else cells
    | none => cells

/-! ### Rows -/

/-- A row with nulls up to `width` cells. -/
def padded (width : Nat) (row : List Cell) : List Cell :=
  row ++ List.replicate (width - row.length) .null

/-- The cells number `i` of all rows. -/
def columnAt (rows : List (List Cell)) (i : Nat) : List Cell :=
  rows.map fun row => row.getD i .null

/-- The rows whose columns these are. -/
def rowsOf (columns : List (List Cell)) (height : Nat) : List (List Cell) :=
  (List.range height).map fun i => columns.map fun column => column.getD i .null

/-- The rows at full width, in the types of their columns. -/
def cells (u : Upload) : Except Cell.Fault (List (List Cell)) :=
  let width := u.labels.length
  let rows := u.rows.map (padded width)
  if u.rows ≠ [] ∧ (u.rows.map List.length).foldl max 0 ≠ width then .error .badValue
  else if u.typed then
    ((List.range width).mapM fun i => typedColumn (columnAt rows i)).map fun columns =>
      rowsOf columns rows.length
  else .ok rows

/-! ### Fields -/

/-- A label as a number, if it is equal to one. -/
def numberOf? (label : Cell) : Option Number :=
  match label.plain with
  | .bool b => some (.whole (if b then 1 else 0))
  | .number n => if n.isNan then none else some n
  | _ => none

/-- Are two labels equal values? -/
def sameLabel (a b : Cell) : Bool :=
  match numberOf? a, numberOf? b with
  | some m, some n => m.compare n == .eq
  | none, none =>
    match a.plain, b.plain with
    | .null, .null => true
    | .text s, .text t => s == t
    | .typed _, .typed _ => a.label == b.label
    | _, _ => false
  | _, _ => false

/-- The cells of a row by their labels: of equal labels the first one, with the
cell of the last. -/
def byLabel : List (Cell × Cell) → List (Cell × Cell)
  | [] => []
  | (label, c) :: rest =>
    let same := rest.filter fun p => sameLabel label p.1
    (label, (same.getLast?.map (·.2)).getD c)
      :: (byLabel rest).filter fun p => !sameLabel label p.1

/-- The stored fields of a row. -/
def fieldsOf (labels row : List Cell) : Except Cell.Fault Fields := do
  let fields ← (byLabel (labels.zip row)).mapM fun p =>
    p.2.toStored.map fun c => (p.1.label, c)
  return Named.ofPairs fields

/-- The stored fields of all rows; a table without columns has none. -/
def fields (u : Upload) (rows : List (List Cell)) : Except Cell.Fault (List Fields) :=
  if u.labels.isEmpty then .ok [] else rows.mapM (fieldsOf u.labels)

end Upload

end Gridbook
