/-
Gridbook/Query/Rows.lean

Row queries.  A request is checked before the store sees it: page and limit,
then the order, then the filters, whose values are brought into the form that
their operators need.

An owner's data and a dataset's data are such queries.  A dataset's data ignores
filters and orders on columns that the dataset lacks.
-/
import Gridbook.Query.Request
import Gridbook.Store.Read

namespace Gridbook

variable [Reader]

namespace Store

/-! ### Checked queries -/

/-- The selection with its filters checked. -/
def checked (sel : Selection) : Except Error Selection := do
  return { sel with filters := ← sel.filters.mapM Filter.check }

/-- One page of the rows of a selection. -/
def page (s : Store) (sel : Selection) (sort : Option Sorting) (page limit : Option Int) :
    Except Error Page := do
  let number ← Error.needed page
  if number < 1 then throw (.problem .pageTooSmall)
  let size ← Error.needed limit
  if size ≤ 0 then throw (.problem .limitTooSmall)
  let order ← Sorting.order sort
  let sel ← checked sel
  let (records, total) ← s.fetch sel order page limit
  return ⟨records, total, number, size⟩

/-- The number of rows of a selection. -/
def rowCount (s : Store) (sel : Selection) : Except Error Nat := do
  s.count (← checked sel)

/-! ### Data of owners and datasets -/

/-- The order that a request asks for. -/
def requestedSort (r : RowRequest) : Option Sorting :=
  (Form.given r.sortBy).map fun column => ⟨some column, some r.sortOrder⟩

/-- Rows of all the datasets of an owner. -/
def ownerData (s : Store) (owner : Ident) (r : RowRequest) : Except Error Page :=
  s.page ⟨owner, none, r.filters, []⟩ (requestedSort r) (some r.page) (some r.limit)

/-- Rows of one dataset of an owner. -/
def datasetData (s : Store) (owner dataset : Ident) (r : RowRequest) : Except Error Page := do
  let d ← s.ownedDataset owner dataset
  let filters := r.filters.filter (·.column ∈ d.columns)
  let sort := (requestedSort r).filter fun o =>
    (o.column.map fun c => decide (c ∈ d.columns ∨ c ∈ placeKeys)).getD false
  s.page ⟨owner, dataset, filters, []⟩ sort (some r.page) (some r.limit)

end Store

/-! ### Search -/

/-- A search for rows whose columns all contain a text. -/
structure SearchRequest where
  query : Cell
  columns : List Cell
  page : Option Int
  limit : Option Int
  sortBy : Cell
  sortOrder : String
  dataset : Option Int
deriving Repr

/-- The row request that a search for `query` stands for.  The columns and the
one that orders the rows have to be texts. -/
def SearchRequest.toRowRequest (r : SearchRequest) (query : String) :
    Except Error RowRequest := do
  let page ← Error.needed r.page
  let limit ← Error.needed r.limit
  let columns ← r.columns.mapM Form.text
  let sortBy ← Form.orNull Form.text r.sortBy
  return {
    page := max 1 page
    limit := min limit largestPageSize
    sortBy
    sortOrder := if r.sortOrder = "desc" then "desc" else "asc"
    filters := columns.map fun c => ⟨c, Comparison.contains.name, .text query⟩ }

/-- Rows whose columns all contain the query, which has to be a text. -/
def Store.search (s : Store) (owner : Ident) (r : SearchRequest) : Except Error Page :=
  match r.query.plain with
  | .text query =>
    if query.isEmpty then .error (.problem .queryRequired)
    else do
      let rows ← r.toRowRequest query
      match r.dataset with
      | some dataset => s.datasetData owner (some dataset) rows
      | none => s.ownerData owner rows
  | _ => .error (.problem .queryRequired)

end Gridbook
