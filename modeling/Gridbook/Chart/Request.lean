/-
Gridbook/Chart/Request.lean

What a caller asks of a chart: its columns, its type, how points are combined,
how many rows are read, and filters.  An empty text counts as not given.
-/
import Gridbook.Filter

namespace Gridbook

/-- A request for a chart. -/
structure ChartRequest where
  dataset : Option Int
  xColumn : Option String
  yColumn : Option String
  chartType : Option String
  aggregation : Option String
  groupBy : Option String
  limit : Option Int
  filters : List Filter
deriving Repr

namespace ChartRequest

/-- Read a request from a form. -/
def ofFields (form : Fields) : Except Error ChartRequest := do
  let dataset ← Form.optional Form.whole form "dataset_id"
  let xColumn ← Form.optional Form.text form "x_column"
  let yColumn ← Form.optional Form.text form "y_column"
  let chartType ← Form.optional Form.text form "chart_type"
  let aggregation ← Form.optional Form.text form "aggregation"
  let groupBy ← Form.optional Form.text form "group_by"
  let limit ← Form.optional Form.whole form "limit"
  let filters ← Form.withDefault Filter.listOfCell [] form "filters"
  return { dataset, xColumn, yColumn, chartType, aggregation, groupBy, limit, filters }

/-- Is it a line chart?  Any other type is drawn as bars. -/
def isLine (r : ChartRequest) : Bool :=
  r.chartType == some "line"

/-- The columns that every plotted row must have. -/
def axes (r : ChartRequest) : List String :=
  [r.xColumn, r.yColumn].filterMap Form.given

end ChartRequest

end Gridbook
