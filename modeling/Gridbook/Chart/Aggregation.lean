/-
Gridbook/Chart/Aggregation.lean

Points that share an x are combined into one, and if points are grouped, those
that also share a group.  Two values are shared when their labels are the same.
The combined point keeps the x and the group of the first one.

Sums are compensated: what rounding loses in one addition is taken off the next
term.  A value that is not a number is left out of every combination.
-/
import Gridbook.Chart.Point
import Gridbook.Groups

namespace Gridbook

/-- How the values of one place are combined. -/
inductive Aggregation where
  | sum
  | avg
  | count
  | min
  | max
deriving Repr, DecidableEq

namespace Aggregation

def all : List Aggregation := [sum, avg, count, min, max]

def name : Aggregation → String
  | sum => "sum"
  | avg => "avg"
  | count => "count"
  | min => "min"
  | max => "max"

def title : Aggregation → String
  | sum => "Sum"
  | avg => "Average"
  | count => "Count"
  | min => "Minimum"
  | max => "Maximum"

def description : Aggregation → String
  | sum => "Add all values together"
  | avg => "Calculate mean of all values"
  | count => "Count number of data points"
  | min => "Find the smallest value"
  | max => "Find the largest value"

def ofName? (s : String) : Option Aggregation :=
  all.find? fun a => a.name = s

/-! ### Reductions -/

/-- A sum and what rounding has added to it. -/
structure Running where
  sum : Float
  excess : Float

/-- Add a term to a running sum. -/
def Running.add (r : Running) (v : Float) : Running :=
  let term := v - r.excess
  let total := r.sum + term
  let excess := (total - r.sum) - term
  ⟨total, if excess.isNaN then 0 else excess⟩

/-- The compensated sum of a list. -/
def total (vs : List Float) : Float :=
  (vs.foldl Running.add ⟨0, 0⟩).sum

/-- The least member of a list, the first one of several. -/
def least (vs : List Float) : Float :=
  vs.foldl (fun m v => if v < m then v else m) (1 / 0)

/-- The greatest member of a list, the first one of several. -/
def greatest (vs : List Float) : Float :=
  vs.foldl (fun m v => if m < v then v else m) (-1 / 0)

/-- Values combined into one; an average, a minimum or a maximum of none is not
a number. -/
def reduce (a : Aggregation) (values : List Float) : Number :=
  let vs := values.filter (!·.isNaN)
  match a with
  | sum => .real (total vs)
  | avg => .real (total vs / Float.ofNat vs.length)
  | count => .whole vs.length
  | min => .real (if vs.isEmpty then 0 / 0 else least vs)
  | max => .real (if vs.isEmpty then 0 / 0 else greatest vs)

/-! ### Combining points -/

/-- The value of a point as a double; null is not a number. -/
def pointValue : Cell → Except Cell.Fault Float
  | .null => .ok (0 / 0)
  | .list _ => .error .badValue
  | c => c.spelledNumber

/-- What points must share to be combined. -/
def pointKey (grouped : Bool) (p : Point) : String × String :=
  (p.x.label, if grouped then p.group.label else "")

/-- Have the labels that points must share a text? -/
def hasKey (grouped : Bool) (p : Point) : Bool :=
  p.x.hasText && (!grouped || p.group.hasText)

/-- The point of a group of points with their values. -/
def combine (a : Aggregation) : List (Point × Float) → Option Point
  | [] => none
  | (p, v) :: rest => some { p with y := .number (a.reduce (v :: rest.map (·.2))) }

/-- The points with those combined that share their place. -/
def points (a : Aggregation) (grouped : Bool) (ps : List Point) :
    Except Error (List Point) := do
  let valued ← ps.mapM fun p => (Error.ofConversion (pointValue p.y)).map fun v => (p, v)
  if !ps.all (hasKey grouped) then throw (.conversion .badValue)
  return (groups (valued.map fun pv => (pointKey grouped pv.1, pv))).filterMap
    fun g => a.combine g.2

/-- `points` for an aggregation by its name. -/
def pointsByName (name : String) (grouped : Bool) (ps : List Point) :
    Except Error (List Point) :=
  match ofName? name with
  | some a => a.points grouped ps
  | none => .error (.problem (.unsupportedAggregation name))

end Aggregation

end Gridbook
