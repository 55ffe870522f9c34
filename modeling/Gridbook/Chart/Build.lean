/-
Gridbook/Chart/Build.lean

Charts from requests: a sound request is scanned for points, these are combined
if it says so, put in order for a line, and laid out.

The scan has a limit.  For a line it runs in the order of x, so that the limit
keeps the lowest values.  `optimize` bounds a request by the number of rows that
it plots; `preview` draws the beginning of a chart.
-/
import Gridbook.Chart.Series
import Gridbook.Chart.Validation

namespace Gridbook

namespace ChartRequest

/-! ### Scanning -/

/-- The number of rows that are scanned where nothing else is said. -/
def defaultScan : Int := 1000

/-- The number of rows that are scanned; zero counts as not given. -/
def scanLimit (r : ChartRequest) : Int :=
  (r.limit.filter (· ≠ 0)).getD defaultScan

/-- The order of the scan. -/
def scanOrder (r : ChartRequest) : Option Sorting :=
  if r.isLine then some ⟨r.xColumn, some "asc"⟩ else none

/-- The points of the scanned rows. -/
def scan (r : ChartRequest) (source : ChartSource) : Except Error (List Point) := do
  Point.extract r (← source.rows r.plotted r.scanOrder r.scanLimit)

/-! ### Drawing -/

/-- The points as they are drawn: combined, and for a line in order. -/
def arranged (r : ChartRequest) (ps : List Point) : Except Error (List Point) := do
  let combined ← match Form.given r.aggregation with
    | some name => Aggregation.pointsByName name (Form.given r.groupBy).isSome ps
    | none => .ok ps
  if r.isLine then Error.ofConversion (Point.sortByX combined) else return combined

/-- The error of a request that is not sound. -/
def invalid (problems : List Problem) : Error :=
  .rejected problems
    ("Chart validation failed: " ++ ", ".intercalate (problems.map Problem.text))

/-- The chart that a request asks for. -/
def generate (r : ChartRequest) (source : ChartSource) : Except Error Series := do
  let verdict ← r.validate source
  if verdict.isValid then
    Series.ofPoints r (← r.arranged (← r.scan source))
  else throw (invalid verdict.problems)

/-- The limits of the scans that generating the chart makes. -/
def scans (r : ChartRequest) (source : ChartSource) : List Int :=
  match r.validate source with
  | .ok verdict => if verdict.isValid then [r.scanLimit] else []
  | .error _ => []

/-! ### Bounds by size -/

/-- The number of rows above which points are combined. -/
def manyPlotted : Int := 5000

/-- The limit of a scan whose points are combined for their number. -/
def combinedScan : Int := 1000

/-- The number of rows above which the scan is limited. -/
def somePlotted : Int := 1000

/-- The limit of a scan that is limited for its number of rows. -/
def limitedScan : Int := 2000

/-- The request with a limit of at most `bound`. -/
def limitedTo (bound : Int) (r : ChartRequest) : ChartRequest :=
  if r.limit.all fun n => n = 0 || bound < n then { r with limit := some bound } else r

/-- The request bounded for a number of rows. -/
def boundedFor (n : Int) (r : ChartRequest) : ChartRequest :=
  if manyPlotted < n then
    let combined :=
      if (Form.given r.aggregation).isNone then
        { r with aggregation := some Aggregation.avg.name }
      else r
    combined.limitedTo combinedScan
  else if somePlotted < n then r.limitedTo limitedScan
  else r

/-- The request bounded by the number of rows that it plots; `none` if they
cannot be counted, and then it stays as it is. -/
def optimize? (r : ChartRequest) (source : ChartSource) : Except Error (Option ChartRequest) :=
  match source.count r.plotted with
  | .ok n => .ok (some (r.boundedFor n))
  | .error (.storage _) => .ok none
  | .error (.rejected ..) => .ok none
  | .error e => .error e

/-- The request bounded if it can be. -/
def optimize (r : ChartRequest) (source : ChartSource) : Except Error ChartRequest := do
  return (← r.optimize? source).getD r

/-- The chart of the bounded request. -/
def generateOptimized (r : ChartRequest) (source : ChartSource) : Except Error Series := do
  (← r.optimize source).generate source

/-! ### Previews -/

/-- The number of points of a preview. -/
def previewPoints : Nat := 50

/-- The request of a preview. -/
def previewRequest (r : ChartRequest) : ChartRequest :=
  { r with limit := some (previewPoints : Int) }

/-- The beginning of a chart. -/
def preview (r : ChartRequest) (source : ChartSource) : Except Error Series := do
  let series ← r.previewRequest.generate source
  return {
    labels := if (Form.given r.groupBy).isSome then series.labels
      else series.labels.take previewPoints
    datasets := series.datasets.map fun d => { d with data := d.data.take previewPoints } }

end ChartRequest

end Gridbook
