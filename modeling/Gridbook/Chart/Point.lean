/-
Gridbook/Chart/Point.lean

Points of a chart, taken from records, and their order by x: numbers by their
value before all else, the rest by their labels.  Points that compare equal keep
their order.
-/
import Gridbook.Chart.Request
import Gridbook.Record
import Gridbook.Sorting
import Gridbook.Sorting.Runs

namespace Gridbook

/-- A point of a chart; `group` is null where points are not grouped. -/
structure Point where
  x : Cell
  y : Cell
  group : Cell
deriving Repr, Inhabited

namespace Point

/-! ### Points of records -/

/-- The point of a row, if the row has both an x and a y.  What is no number
counts as zero. -/
def ofFields? (r : ChartRequest) (fields : Fields) : Except Error (Option Point) :=
  let x := (r.xColumn.map fields.cell).getD .null
  let y := (r.yColumn.map fields.cell).getD .null
  if x.isNull || y.isNull then .ok none
  else
    match y.lenientNumber with
    | .ok n => .ok (some ⟨x, .number (.real n), ((Form.given r.groupBy).map fields.cell).getD .null⟩)
    | .error f => .error (.conversion f)

/-- The points of a list of rows. -/
def extract (r : ChartRequest) (rows : List Fields) : Except Error (List Point) := do
  return (← rows.mapM (ofFields? r)).filterMap id

/-! ### Order -/

/-- What points are ordered by. -/
inductive Key where
  | number (n : Number)
  /-- A double of a column of doubles. -/
  | double (x : Float)
  | text (s : String)
deriving Repr, Inhabited

namespace Key

def ofCell : Cell → Except Cell.Fault Key
  | .number n => .ok (.number n)
  | .typed (.double x) => .ok (.double x)
  | c => c.label?.map .text

/-- Is the key a whole number, a double other than not-a-number, or a text?
Such keys are ordered by `compare`. -/
def isPlain : Key → Bool
  | number (.word _) => false
  | number n => !n.isNan
  | double _ => false
  | text _ => true

/-- Comparison of keys. -/
def compare : Key → Key → Ordering
  | number a, number b => a.compare b
  | text s, text t => Ord.compare s t
  | text _, _ => .gt
  | _, text _ => .lt
  | _, _ => .eq

/-- Comparison as doubles. -/
def lessReal (a b : Number) : Except Cell.Fault Bool := do
  let x ← Cell.realOfNumber a
  let y ← Cell.realOfNumber b
  return decide (x < y)

/-- Does the first number come before the second?  Words beside doubles are
compared as doubles, and not-a-number comes before nothing. -/
def lessNumber (a b : Number) : Except Cell.Fault Bool :=
  match a, b with
  | .word _, .real _ => lessReal a b
  | .real _, .word _ => lessReal a b
  | _, _ => .ok (!a.isNan && !b.isNan && a.compare b == .lt)

/-- Does the first key come before the second?  A double of a column of doubles
is compared with everything as a double. -/
def less : Key → Key → Except Cell.Fault Bool
  | text s, text t => .ok (decide (s < t))
  | text _, _ => .ok false
  | _, text _ => .ok true
  | number a, number b => lessNumber a b
  | number a, double y => lessReal a (.real y)
  | double x, number b => lessReal (.real x) b
  | double x, double y => .ok (decide (x < y))

end Key

/-- The points by increasing x.  Plain keys are in an order, and points with
equal keys stay as they are; with others among them the points are put where
merging their runs puts them. -/
def sortByX (ps : List Point) : Except Cell.Fault (List Point) := do
  let keyed ← ps.mapM fun p => (Key.ofCell p.x).map fun k => (k, p)
  if keyed.all (·.1.isPlain) then
    return (sortBy (fun a b => (a.1.compare b.1).isLE) keyed).map (·.2)
  else
    return (← Runs.sort (fun a b => a.1.less b.1) keyed).map (·.2)

end Point

end Gridbook
