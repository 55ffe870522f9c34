/-
Gridbook/Store/Read.lean

Reading the store.  A selection names an owner, perhaps one dataset, filters,
and columns that must have a value.  `fetch` gives one window of the selected
rows in an order, together with the number of all of them.

Rows are ordered by dataset, place and id.  Where a column orders them, its
scalars come first, upwards or downwards, and equal ones keep that order; a
downward order without a column is the whole order reversed.
-/
import Gridbook.Sorting
import Gridbook.Store.Condition
import Gridbook.Window

namespace Gridbook

/-- Which rows are meant. -/
structure Selection where
  owner : Ident
  dataset : Option Int
  filters : List Filter
  required : List String
deriving Repr

/-- How rows are ordered; without a column, by their places. -/
structure Order where
  column : Option String
  descending : Bool
deriving Repr, DecidableEq

namespace Selection

/-- Has the filter's value the text that a search needs? -/
def isSearchable (f : Filter) (op : Comparison) : Bool :=
  op ≠ .contains || f.value.hasText

/-- The filters with the comparisons that they ask for; an operator that is
unknown is a bad value, and so is a search for what has no text. -/
def comparisons (sel : Selection) : Except Error (List (Filter × Comparison)) :=
  sel.filters.mapM fun f =>
    match Comparison.ofName? f.operator with
    | some op => if isSearchable f op then .ok (f, op) else .error (.conversion .badValue)
    | none => .error (.conversion .badValue)

/-- Is the row the owner's, and of the dataset if one is named? -/
def covers (sel : Selection) (r : Row) : Bool :=
  sel.owner.names r.owner && (sel.dataset.map (· == (r.dataset : Int))).getD true

end Selection

namespace Store

variable [Reader]

/-! ### Selecting rows -/

/-- The conditions of a selection.  What the filters compare with is converted
first, and what is bound is checked after that in its order. -/
def conditions (s : Store) (sel : Selection) (ops : List (Filter × Comparison)) :
    Except Failure (List Condition) := do
  if !ops.all fun f => Test.isComparable f.2 f.1.value then throw .failed
  s.statement [.rows] (sel.owner.toList ++ sel.dataset.toList)
  let filters ← ops.mapM fun f => Condition.ofFilter f.1 f.2
  return filters ++ sel.required.map Condition.present

/-- The rows of a list that meet all conditions. -/
def meeting (conds : List Condition) : List Row → Except Failure (List Row)
  | [] => .ok []
  | r :: rs => do
    let holds ← Condition.allHold r.fields conds
    let rest ← meeting conds rs
    return if holds then r :: rest else rest

/-- The rows that a selection covers and its conditions leave. -/
def selected (s : Store) (sel : Selection) (conds : List Condition) :
    Except Failure (List Row) :=
  meeting conds (s.rows.filter sel.covers)

/-! ### Order -/

/-- Comparison by dataset, place and id. -/
def placeCompare (a b : Row) : Ordering :=
  (compare a.dataset b.dataset).then ((compare a.index b.index).then (compare a.id b.id))

/-- The rows by their places. -/
def byPlace (rows : List Row) : List Row :=
  sortBy (fun a b => (placeCompare a b).isLE) rows

/-- A row with the scalar that orders it. -/
def withKey (path : List Path.Step) (r : Row) : Except Failure (Native × Row) :=
  (Native.extract path r.fields).map fun v => (v, r)

/-- The rows in an order. -/
def ordered (order : Order) (rows : List Row) : Except Failure (List Row) :=
  match Form.given order.column with
  | none => .ok (if order.descending then (byPlace rows).reverse else byPlace rows)
  | some column => do
    let keyed ← (byPlace rows).mapM (withKey (Path.ofColumn column))
    let inOrder (a b : Native) : Bool :=
      if order.descending then (b.compare a).isLE else (a.compare b).isLE
    return (sortBy (fun a b => inOrder a.1 b.1) keyed).map (·.2)

/-! ### Rows -/

/-- The number of rows that a selection has. -/
def count (s : Store) (sel : Selection) : Except Error Nat := do
  let ops ← sel.comparisons
  during .countRows do
    return (← s.selected sel (← s.conditions sel ops)).length

/-- One window of the rows of a selection.  A window of no rows looks at none. -/
def windowOf (s : Store) (sel : Selection) (ops : List (Filter × Comparison)) (order : Order)
    (limit offset : Int) : Except Failure (List Row) := do
  let conds ← s.conditions sel ops
  s.statement [.rows] [limit, offset]
  if limit = 0 then .ok []
  else (ordered order (← s.selected sel conds)).map (window limit offset)

/-- One page of the rows of a selection, and the number of all of them. -/
def fetch (s : Store) (sel : Selection) (order : Order) (page limit : Option Int) :
    Except Error (List Record × Nat) := do
  let ops ← sel.comparisons
  let page ← Error.needed page
  let limit ← Error.needed limit
  let rows ← during .retrieveRows (s.windowOf sel ops order limit ((page - 1) * limit))
  let total ← s.count sel
  return (rows.map Row.toRecord, total)

/-- The first values of a dataset's column that are not null, by their places,
up to a limit if there is one. -/
def sample (s : Store) (dataset : Ident) (column : String) (limit : Option Int) :
    Except Error (List Cell) :=
  during (.sampleColumn column) do
    s.statement [.rows] (dataset.toList ++ limit.toList)
    if limit = some 0 then .ok []
    else
      let rows := s.rows.filter fun r => dataset.names r.dataset
      let present ← meeting [.present column] rows
      let byIndex := sortBy (fun a b => decide (a.index ≤ b.index)) present
      .ok (((window (limit.getD (-1)) 0 byIndex).map (·.fields.cell column)).filter (!·.isNull))

/-- The number of an owner's rows, and the time of the latest one if there is any. -/
def rowStats (s : Store) (owner : Ident) : Except Error (Nat × Option Nat) :=
  during .rowStatistics do
    s.statement [.rows] owner.toList
    let mine := s.rows.filter fun r => owner.names r.owner
    return (mine.length, (mine.map (·.created)).max?)

/-! ### Datasets and saved columns -/

/-- An owner's dataset by its id. -/
def dataset? (s : Store) (owner dataset : Ident) : Except Error (Option Dataset) :=
  during (.loadDataset dataset) do
    s.statement [.datasets] (dataset.toList ++ owner.toList)
    return s.datasets.find? fun d => dataset.names d.id && owner.names d.owner

/-- An owner's dataset by its id, which has to be there. -/
def ownedDataset (s : Store) (owner dataset : Ident) : Except Error Dataset := do
  match ← s.dataset? owner dataset with
  | some d => .ok d
  | none => .error (.absent .dataset)

/-- An owner's datasets, the latest first, and of two of one time the later id. -/
def datasetsOf (s : Store) (owner : Ident) : Except Error (List Dataset) :=
  during .listDatasets do
    s.statement [.datasets] owner.toList
    let mine := s.datasets.filter fun d => owner.names d.owner
    return sortBy (fun a b =>
      ((compare b.uploaded a.uploaded).then (compare b.id a.id)).isLE) mine

/-- An owner's saved columns, of one dataset or of all, the latest first. -/
def savedOf (s : Store) (owner : Ident) (dataset : Option Int) :
    Except Error (List SavedColumn) :=
  during .retrieveSavedColumns do
    s.statement [.savedColumns] (owner.toList ++ dataset.toList)
    let mine := s.saved.filter fun c =>
      owner.names c.owner && (dataset.map (· == (c.dataset : Int))).getD true
    return sortBy (fun a b =>
      ((compare b.created a.created).then (compare b.id a.id)).isLE) mine

end Store

end Gridbook
