/-
Gridbook/Chart/Validation.lean

Is a chart request sound?  Its form, its filters and its columns are checked
first, and all problems are listed.  Only if there are none are the rows
counted: there must be some to plot.
-/
import Gridbook.Chart.Aggregation
import Gridbook.Chart.Source

namespace Gridbook

/-- The number of rows above which a chart comes with a warning. -/
def manyRows : Int := 10000

/-- What is wrong with a chart request, and what is only doubtful. -/
structure ChartVerdict where
  problems : List Problem
  warnings : List String
deriving Repr, DecidableEq

def ChartVerdict.isValid (v : ChartVerdict) : Bool :=
  v.problems.isEmpty

namespace ChartRequest

/-- A problem that is there if the condition holds. -/
def problemIf (condition : Bool) (p : Problem) : List Problem :=
  if condition then [p] else []

/-- What is wrong with the chart's type. -/
def typeProblems (r : ChartRequest) : List Problem :=
  match Form.given r.chartType with
  | none => [.chartTypeRequired]
  | some t => problemIf (t ∉ ["line", "bar"]) .badChartType

/-- What is wrong with the request's form. -/
def formProblems (r : ChartRequest) : List Problem :=
  problemIf (Form.given r.xColumn).isNone (.axisRequired .x)
    ++ problemIf (Form.given r.yColumn).isNone (.axisRequired .y)
    ++ r.typeProblems
    ++ problemIf ((Form.given r.aggregation).any fun a => (Aggregation.ofName? a).isNone)
        .badAggregation
    ++ problemIf (r.limit.any (· ≤ 0)) .limitTooSmall

/-- What is wrong with the request's columns. -/
def columnProblems (r : ChartRequest) (columns : List Column) : List Problem :=
  let unknown (axis : Axis) (column : Option String) : List Problem :=
    match Form.given column with
    | some name => problemIf (columns.all (·.name ≠ name)) (.unknownAxis axis name)
    | none => []
  unknown .x r.xColumn ++ unknown .y r.yColumn ++ unknown .group r.groupBy

/-- A warning if the y column does not hold numbers. -/
def columnWarnings (r : ChartRequest) (columns : List Column) : List String :=
  match Form.given r.yColumn with
  | none => []
  | some name =>
    match columns.reverse.find? (·.name = name) with
    | none => []
    | some c =>
      if c.kind = .number then []
      else ["Y-axis column \"" ++ name ++ "\" is not numeric, values will be converted"]

/-- A warning if there are very many rows. -/
def rowWarnings (n : Int) : List String :=
  if manyRows < n then
    ["Large dataset (" ++ String.ofList (wholeText n) ++ " rows) may impact performance. "
      ++ "Consider using filters or aggregation."]
  else []

/-- Check a chart request against a source. -/
def validate (r : ChartRequest) (source : ChartSource) : Except Error ChartVerdict := do
  let filterProblems ← Filter.problems r.filters
  let columns ← source.columns r.dataset
  let problems := r.formProblems ++ filterProblems ++ r.columnProblems columns
  let warnings := r.columnWarnings columns
  if problems.isEmpty then
    let n ← source.count r.plotted
    return ⟨problemIf (n = 0) .noData, warnings ++ rowWarnings n⟩
  else return ⟨problems, warnings⟩

end ChartRequest

end Gridbook
