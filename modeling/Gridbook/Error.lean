/-
Gridbook/Error.lean

Why a request fails.  Every cause is a constructor; `Error.message` words it.

A rejected request carries all of its problems.  Its message is the headline if
it has one, else the problems themselves.
-/
import Gridbook.Cell.Numeric
import Gridbook.Formula.Fault

namespace Gridbook

/-- A column of a chart by its part in it. -/
inductive Axis where
  | x
  | y
  | group
deriving Repr, DecidableEq

def Axis.title : Axis → String
  | x => "X-axis column"
  | y => "Y-axis column"
  | group => "Group by column"

/-- What is wrong with a request. -/
inductive Problem where
  | filterColumnRequired
  | unsupportedOperator (op : String)
  | filterValueNotNumeric (column op : String)
  | filterValueRequired (column : String)
  | pageTooSmall
  | limitTooSmall
  | badSortOrder (order : String)
  | queryRequired
  | columnNameRequired
  | axisRequired (axis : Axis)
  | chartTypeRequired
  | badChartType
  | badAggregation
  | unsupportedAggregation (name : String)
  | unknownAxis (axis : Axis) (column : String)
  | noData
  /-- A problem in the words of whoever found it. -/
  | stated (text : String)
deriving Repr, DecidableEq

namespace Problem

def text : Problem → String
  | filterColumnRequired => "Filter column is required"
  | unsupportedOperator op =>
    s!"Unsupported filter operator '{op}'. Must be one of: eq, gt, lt, contains"
  | filterValueNotNumeric column op =>
    s!"Filter value for '{column}' must be numeric for operator '{op}'"
  | filterValueRequired column => s!"Filter value for '{column}' is required"
  | pageTooSmall => "Page must be greater than or equal to 1"
  | limitTooSmall => "Limit must be greater than 0"
  | badSortOrder order => s!"Sort order must be 'asc' or 'desc', got '{order}'"
  | queryRequired => "Search query is required and must be a string"
  | columnNameRequired => "Column name is required"
  | axisRequired axis => axis.title ++ " is required"
  | chartTypeRequired => "Chart type is required"
  | badChartType => "Chart type must be either \"line\" or \"bar\""
  | badAggregation => "Aggregation must be one of: sum, avg, count, min, max"
  | unsupportedAggregation name => s!"Unsupported aggregation '{name}'"
  | unknownAxis axis column => axis.title ++ " \"" ++ column ++ "\" does not exist"
  | noData => "No data available for the specified criteria"
  | stated text => text

end Problem

/-- What is not there, or not the caller's. -/
inductive Absent where
  | dataset
  | savedColumn
deriving Repr, DecidableEq

/-- What the store was about when it failed. -/
inductive Activity where
  | retrieveRows
  | countRows
  | loadDataset (id : Option Int)
  | listDatasets
  | sampleColumn (name : String)
  | rowStatistics
  | retrieveSavedColumns
  | transaction
  /-- A failure in the words of the store. -/
  | stated (text : String)
deriving Repr, DecidableEq

def Activity.failure : Activity → String
  | retrieveRows => "Failed to retrieve rows"
  | countRows => "Failed to count rows"
  | loadDataset (some id) => "Failed to load dataset " ++ String.ofList (wholeText id)
  | loadDataset none => "Failed to load dataset None"
  | listDatasets => "Failed to list datasets"
  | sampleColumn name => s!"Failed to sample column '{name}'"
  | rowStatistics => "Failed to compute row statistics"
  | retrieveSavedColumns => "Failed to retrieve calculated columns"
  | transaction => "Transaction failed"
  | stated text => text

/-- Why a request fails. -/
inductive Error where
  /-- A text is no formula. -/
  | formula (f : Formula.SyntaxFault)
  /-- A formula has no value on a row. -/
  | evaluation (f : Formula.Fault)
  /-- The request itself is at fault; an empty headline is none. -/
  | rejected (problems : List Problem) (headline : String)
  | absent (what : Absent)
  | storage (activity : Activity)
  /-- A value cannot be converted. -/
  | conversion (f : Cell.Fault)
  /-- A value does not fit the place it is meant for. -/
  | misfit
deriving Repr

namespace Error

/-- A rejection for one problem. -/
def problem (p : Problem) : Error :=
  .rejected [p] ""

def overflow : Error :=
  .conversion .overflow

/-- The words of an error; those that are no answer for people have none. -/
def message : Error → String
  | formula f => f.message
  | evaluation f => f.message
  | rejected problems headline =>
    if headline.isEmpty then "; ".intercalate (problems.map Problem.text) else headline
  | absent .dataset => "Dataset not found or access denied"
  | absent .savedColumn => "Calculated column not found or access denied"
  | storage activity => activity.failure
  | conversion _ => ""
  | misfit => ""

/-- A number that has to be there. -/
def needed : Option Int → Except Error Int
  | some n => .ok n
  | none => .error (.conversion .badKind)

/-- A conversion's outcome as a request's outcome. -/
def ofConversion {α : Type} : Except Cell.Fault α → Except Error α
  | .ok a => .ok a
  | .error f => .error (.conversion f)

/-- The outcome of reading a formula as a request's outcome. -/
def ofSyntax {α : Type} : Except Formula.SyntaxFault α → Except Error α
  | .ok a => .ok a
  | .error f => .error (.formula f)

end Error

end Gridbook
