/-
Gridbook/Chart/Source.lean

Where a chart gets its rows from: the known columns, the number of rows of a
selection, and its first rows in an order.  An owner's data in the store is such
a source.
-/
import Gridbook.Chart.Request
import Gridbook.Query.Overview
import Gridbook.Query.Rows

namespace Gridbook

/-- The rows that a chart plots: those of a scope that pass the filters and have
values in the columns. -/
structure Plotted where
  dataset : Option Int
  filters : List Filter
  required : List String
deriving Repr

/-- A source of rows. -/
structure ChartSource where
  /-- The columns of a dataset, or of all. -/
  columns : Option Int → Except Error (List Column)
  /-- The number of rows. -/
  count : Plotted → Except Error Int
  /-- The first rows, at most as many as the limit says. -/
  rows : Plotted → Option Sorting → Int → Except Error (List Fields)

/-- The rows that a request plots. -/
def ChartRequest.plotted (r : ChartRequest) : Plotted :=
  ⟨r.dataset, r.filters, r.axes⟩

/-- An owner's data. -/
def Store.chartSource [Reader] (s : Store) (owner : Ident) : ChartSource where
  columns dataset := s.columns owner dataset (some defaultSampleSize)
  count p := (s.rowCount ⟨owner, p.dataset, p.filters, p.required⟩).map Int.ofNat
  rows p sort limit :=
    (s.page ⟨owner, p.dataset, p.filters, p.required⟩ sort (some 1) (some limit)).map fun page =>
      page.records.map (·.fields)

end Gridbook
