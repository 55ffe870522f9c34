/-
Gridbook/Chart/Series.lean

Points laid out for drawing.  Without groups there is one dataset, with a label
for each point.  With groups there is a dataset for each group label, in the
order of their first points, and the labels are the distinct x labels in order.
Lines take their colour on the border, bars in the fill.
-/
import Gridbook.Chart.Aggregation
import Gridbook.Text.Sorted

namespace Gridbook

/-- One drawn series of points. -/
structure Series.Dataset where
  label : String
  data : List (Cell × Float)
  backgroundColor : Option String
  borderColor : Option String
  borderWidth : Nat
deriving Repr

/-- All that a chart draws. -/
structure Series where
  labels : List String
  datasets : List Series.Dataset
deriving Repr

namespace Series

/-! ### Colours -/

def palette : List String :=
  ["rgba(54, 162, 235, 0.8)", "rgba(255, 99, 132, 0.8)", "rgba(75, 192, 192, 0.8)",
   "rgba(255, 206, 86, 0.8)", "rgba(153, 102, 255, 0.8)", "rgba(255, 159, 64, 0.8)",
   "rgba(199, 199, 199, 0.8)", "rgba(83, 102, 255, 0.8)"]

/-- The colour of the dataset number `i`. -/
def color (i : Nat) : String :=
  palette.getD (i % palette.length) ""

def singleFill : String := "rgba(54, 162, 235, 0.6)"

def singleLine : String := "rgba(54, 162, 235, 1)"

/-! ### Datasets -/

/-- A point as it is drawn. -/
def drawn (p : Point) : Except Error (Cell × Float) :=
  (Form.real p.y).map fun y => (p.x, y)

/-- A dataset in its colours. -/
def dataset (isLine : Bool) (label fill line : String) (ps : List Point) :
    Except Error Dataset := do
  return {
    label
    data := ← ps.mapM drawn
    backgroundColor := if isLine then none else some fill
    borderColor := if isLine then some line else none
    borderWidth := if isLine then 2 else 1 }

/-- The label of a point's group. -/
def groupLabel (p : Point) : String :=
  if p.group.isNull then "Unknown" else p.group.label

/-- A dataset for each group label. -/
def grouped (isLine : Bool) (ps : List Point) : Except Error (List Dataset) := do
  if !ps.all (·.group.hasText) then throw (.conversion .badValue)
  ((groups (ps.map fun p => (groupLabel p, p))).mapIdx fun i g => (i, g)).mapM
    fun (i, label, members) => dataset isLine label (color i) (color i) members

/-- The labels of the points' places. -/
def xLabels (ps : List Point) : Except Error (List String) :=
  ps.mapM fun p => Error.ofConversion p.x.label?

/-- A column's name, or the word for none. -/
def columnTitle (column : Option String) : String :=
  column.getD "None"

/-- The points laid out as the request asks. -/
def ofPoints (r : ChartRequest) (ps : List Point) : Except Error Series := do
  if (Form.given r.groupBy).isSome then
    let datasets ← grouped r.isLine ps
    return ⟨Text.sortedDistinct (← xLabels ps), datasets⟩
  else
    let label := columnTitle r.yColumn ++ " vs " ++ columnTitle r.xColumn
    let single ← dataset r.isLine label singleFill singleLine ps
    return ⟨← xLabels ps, [single]⟩

end Series

end Gridbook
