/-
Gridbook/Query/Overview.lean

What an owner has: the list of datasets, the numbers of a dashboard, and the
columns with the kinds of their values.

The kind of a column is judged by a sample from the latest dataset that has it.
-/
import Gridbook.Cell.Kind
import Gridbook.Query.Request
import Gridbook.Store.Read
import Gridbook.Text.Sorted
import Gridbook.Groups

namespace Gridbook

/-- The numbers of a dashboard. -/
structure Dashboard where
  rows : Nat
  datasets : Nat
  /-- The time of the latest row. -/
  lastUpload : Option Nat
  columns : Nat
deriving Repr, DecidableEq

/-- Is a last upload shown? -/
def Dashboard.hasUpload (d : Dashboard) : Bool :=
  d.lastUpload.isSome

/-- A column and the kind of its values. -/
structure Column where
  name : String
  kind : Kind
deriving Repr, DecidableEq

/-- Words that make a column's name sound like a number. -/
def numericHints : List String := ["price", "volume", "amount", "quantity", "value"]

/-- Does the column hold numbers, or sound as if it did? -/
def Column.isNumeric (c : Column) : Bool :=
  c.kind == .number ||
    numericHints.any fun hint => Text.occursIn hint.toList (c.name.toList.map Char.toLower)

/-- The number of values that a kind is judged by. -/
def defaultSampleSize : Int := 10

/-- The number of datasets that a list shows where nothing else is said. -/
def defaultListLength : Int := 10

namespace Store

variable [Reader]

/-- The first datasets of an owner, the latest first. -/
def datasetList (s : Store) (owner : Ident) (limit : Option Int) :
    Except Error (List Dataset) := do
  let datasets ← s.datasetsOf owner
  let limit ← Error.needed limit
  return upTo (some (min limit largestPageSize)) datasets

def dashboard (s : Store) (owner : Ident) : Except Error Dashboard := do
  let datasets ← s.datasetsOf owner
  let (rows, lastUpload) ← s.rowStats owner
  return ⟨rows, datasets.length, lastUpload, (distinct (datasets.flatMap (·.columns))).length⟩

/-! ### Columns -/

/-- The datasets that a listing of columns looks at. -/
def listedDatasets (s : Store) (owner : Ident) (dataset : Option Int) :
    Except Error (List Dataset) :=
  match dataset with
  | some id => return (← s.dataset? owner (some id)).toList
  | none => s.datasetsOf owner

/-- The column names of datasets, each with the first dataset that has it. -/
def firstPlaces (datasets : List Dataset) : List (String × Nat) :=
  (groups (datasets.flatMap fun d => d.columns.map fun name => (name, d.id))).filterMap
    fun g => g.2.head?.map fun id => (g.1, id)

/-- A column with the kind that a sample shows. -/
def sampledColumn (s : Store) (sampleSize : Option Int) (place : String × Nat) :
    Except Error Column := do
  let cells ← s.sample (some (place.2 : Int)) place.1 sampleSize
  let kind ← Error.ofConversion (Kind.ofCells cells)
  return ⟨place.1, kind⟩

/-- The columns of an owner's datasets, or of one of them, by name. -/
def columns (s : Store) (owner : Ident) (dataset sampleSize : Option Int) :
    Except Error (List Column) := do
  let found ← (firstPlaces (← s.listedDatasets owner dataset)).mapM (s.sampledColumn sampleSize)
  return sortBy (fun a b => decide (a.name ≤ b.name)) found

/-- The columns that hold numbers or sound as if they did. -/
def numericColumns (s : Store) (owner : Ident) (dataset : Option Int) :
    Except Error (List Column) := do
  return (← s.columns owner dataset (some defaultSampleSize)).filter Column.isNumeric

end Store

end Gridbook
