import Gridbook.Groups
import Gridbook.Named
import Gridbook.Sorting
import Gridbook.Sorting.Runs
import Gridbook.Window
import Gridbook.Text.Blank
import Gridbook.Text.Digit
import Gridbook.Text.Listed
import Gridbook.Text.Printable
import Gridbook.Text.Quoted
import Gridbook.Text.Search
import Gridbook.Text.Sorted
import Gridbook.Decimal.Layout
import Gridbook.Real.Parts
import Gridbook.Real.Ratio
import Gridbook.Real.Digits
import Gridbook.Real.Text
import Gridbook.Real.Extended
import Gridbook.Power
import Gridbook.Number
import Gridbook.Number.Literal
import Gridbook.Number.Spelled
import Gridbook.Number.Tabular
import Gridbook.Calendar.Basic
import Gridbook.Calendar.Spelled
import Gridbook.Calendar.Reader
import Gridbook.Calendar.Moment
import Gridbook.Calendar.IsoText
import Gridbook.Calendar.Token
import Gridbook.Calendar.Draft
import Gridbook.Calendar.Phrase
import Gridbook.Calendar.Brief
import Gridbook.Calendar.FreeText
import Gridbook.Cell.Basic
import Gridbook.Cell.Numeric
import Gridbook.Cell.Storable
import Gridbook.Cell.Kind
import Gridbook.Json.Write
import Gridbook.Json.Read
import Gridbook.Formula.Fault
import Gridbook.Error
import Gridbook.Formula.Token
import Gridbook.Formula.Tree
import Gridbook.Formula.Basic
import Gridbook.Formula.Evaluation
import Gridbook.Formula.Batch
import Gridbook.Formula.Check
import Gridbook.Form
import Gridbook.Filter
import Gridbook.Record
import Gridbook.Upload
import Gridbook.Store.Numeral
import Gridbook.Store.Path
import Gridbook.Store.Native
import Gridbook.Store.Basic
import Gridbook.Store.Pattern
import Gridbook.Store.Condition
import Gridbook.Store.Read
import Gridbook.Store.Write
import Gridbook.Query.Request
import Gridbook.Query.Rows
import Gridbook.Query.Overview
import Gridbook.SavedColumns
import Gridbook.Chart.Request
import Gridbook.Chart.Point
import Gridbook.Chart.Aggregation
import Gridbook.Chart.Series
import Gridbook.Chart.Source
import Gridbook.Chart.Validation
import Gridbook.Chart.Build
import Gridbook.Proofs.Formula.Cut
import Gridbook.Proofs.Formula.Naming
import Gridbook.Proofs.Formula.Grammar
import Gridbook.Proofs.Store.History
import Gridbook.Proofs.Store.Integrity
import Gridbook.Proofs.Sorting
import Gridbook.Proofs.Store.Order
import Gridbook.Proofs.Query.Paging
import Gridbook.Proofs.Store.Own
import Gridbook.Proofs.Isolation
import Gridbook.Proofs.Store.Lookup
import Gridbook.Proofs.Store.Pattern
import Gridbook.Proofs.Store.Atomic
import Gridbook.Proofs.Store.Answering
import Gridbook.Proofs.Store.Readable
import Gridbook.Proofs.Query.Reading
import Gridbook.Proofs.Store.Metadata
import Gridbook.Proofs.Query.Searching
import Gridbook.Proofs.Store.Fields
import Gridbook.Proofs.Query.Returning
import Gridbook.Proofs.Query.Rejecting
import Gridbook.Proofs.Query.Handling
import Gridbook.Proofs.Query.Ordering
import Gridbook.Proofs.Query.Containing
import Gridbook.Proofs.Formula.Settling
import Gridbook.Proofs.Formula.Checking
import Gridbook.Proofs.Formula.Visiting
import Gridbook.Proofs.Formula.Depending
import Gridbook.Proofs.Formula.Printing
import Gridbook.Proofs.Formula.Placing
import Gridbook.Proofs.Formula.Refusing
import Gridbook.Proofs.Formula.Composing
import Gridbook.Proofs.SavedColumns
import Gridbook.Proofs.Chart.Bounding
import Gridbook.Proofs.Groups
import Gridbook.Proofs.Chart.Combining
import Gridbook.Proofs.Chart.Grouping
import Gridbook.Proofs.Chart.Arranging
import Gridbook.Proofs.Real.Nan
import Gridbook.Proofs.Real.Whole
import Gridbook.Proofs.Real.Rounding
import Gridbook.Proofs.Real.Decimal
import Gridbook.Proofs.Real.Shortest
import Gridbook.Proofs.Formula.Numerals
import Gridbook.Proofs.Number.Finite
import Gridbook.Proofs.Chart.Coverage
import Gridbook.Proofs.Number.Place
import Gridbook.Proofs.Store.Written
import Gridbook.Proofs.Store.Reader
import Gridbook.Proofs.Query.Comparing
import Gridbook.Proofs.Chart.Scanning
import Gridbook.Proofs.Chart.Limiting
import Gridbook.Proofs.Real.Less
import Gridbook.Proofs.Chart.Reducing
import Gridbook.Proofs.Chart.Partitioning
import Gridbook.Proofs.Chart.Sorting
import Gridbook.Proofs.Chart.Tightening
import Gridbook.Proofs.Chart.Previewing
import Gridbook.Proofs.Chart.Reordering
import Gridbook.Proofs.Chart.Judging
import Gridbook.Proofs.Formula.Slicing
import Gridbook.Proofs.Store.Writing
import Gridbook.Proofs.Query.Listing
import Gridbook.Proofs.Query.Agreeing
import Gridbook.Proofs.Sorting.Alike
import Gridbook.Proofs.Sorting.Searching
import Gridbook.Proofs.Sorting.Merging
import Gridbook.Proofs.Sorting.Runs
import Gridbook.Proofs.Number.Value
import Gridbook.Proofs.Chart.Ranking
