/-
Gridbook/Store/Basic.lean

The store: datasets, their rows, and the formulas saved for them, each with the
owner it belongs to.  Rows stand in the order of their ids.

Everything that is inserted takes its time from the store's clock, which then moves
on, so what is inserted later has a later time.  A table that has been dropped takes part in
no statement any more.
-/
import Gridbook.Calendar.Basic
import Gridbook.Record
import Gridbook.Store.Native

namespace Gridbook

/-- What is known of an uploaded table. -/
structure Dataset where
  id : Nat
  owner : Int
  name : String
  filename : Option String
  rowCount : Nat
  columnCount : Nat
  columns : List String
  uploaded : Nat
deriving Repr

/-- A stored row. -/
structure Row where
  id : Nat
  owner : Int
  dataset : Nat
  index : Nat
  fields : Fields
  created : Nat
deriving Repr

/-- The row as a request sees it. -/
def Row.toRecord (r : Row) : Record :=
  ⟨r.id, r.owner, r.dataset, r.index, r.fields⟩

/-- A formula saved for a dataset under a name. -/
structure SavedColumn where
  id : Nat
  owner : Int
  dataset : Nat
  name : String
  formula : String
  created : Nat
deriving Repr

/-- The number by which an owner, a dataset or a saved column is asked for; no
number asks for nothing. -/
abbrev Ident := Option Int

/-- Is it the number that is asked for? -/
def Ident.names (i : Ident) (n : Int) : Bool :=
  i == some n

/-- The tables of the store. -/
inductive Table where
  | rows
  | datasets
  | savedColumns
deriving Repr, DecidableEq

structure Store where
  datasets : List Dataset
  rows : List Row
  saved : List SavedColumn
  /-- The tables that are gone. -/
  dropped : List Table
  /-- The time, in microseconds. -/
  clock : Nat
deriving Repr

namespace Store

/-- A store without content. -/
def empty : Store :=
  let start : Instant := ⟨⟨2026, 1, 1⟩, 0, 0, 0, 0, none⟩
  ⟨[], [], [], [], start.micros⟩

/-- Does the store still have this table? -/
def hasTable (s : Store) (t : Table) : Bool :=
  t ∉ s.dropped

/-- The number after the largest of `ids`. -/
def nextId (ids : List Nat) : Nat :=
  ids.foldl max 0 + 1

/-! ### Statements -/

/-- A statement on some tables with whole numbers bound to it. -/
def statement (s : Store) (tables : List Table) (bound : List Int) : Except Failure Unit :=
  if tables.all s.hasTable then
    if bound.all fitsWord then .ok () else .error .overflow
  else .error .failed

/-- A failed statement as the failure of a request. -/
def Failure.error (activity : Activity) : Failure → Error
  | .overflow => .overflow
  | .failed => .storage activity

/-- A statement's outcome as a request's outcome. -/
def during {α : Type} (activity : Activity) : Except Failure α → Except Error α
  | .ok a => .ok a
  | .error f => .error (f.error activity)

end Store

end Gridbook
