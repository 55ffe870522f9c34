/-
Gridbook/Store/Write.lean

Writing the store.  Every write is a transaction: it gives an outcome and the
store after it, and the store is the old one unless all statements have
succeeded.

Deleting a dataset deletes what belongs to it and to its owner.  That nothing
was there to delete is found out when the deletion is done.
-/
import Gridbook.Store.Read
import Gridbook.Upload

namespace Gridbook.Store

/-- An outcome and the store after it. -/
abbrev Written (α : Type) := Except Error α × Store

/-- Apply what a transaction's statements give, all or nothing. -/
def commit {α : Type} (s : Store) : Except Error (α × Store) → Written α
  | .ok (a, s') => (.ok a, s')
  | .error e => (.error e, s)

/-! ### Datasets -/

/-- The rows of a new dataset, with ids from `first` and times from `time` on. -/
def newRows (owner : Int) (dataset first time : Nat) (rows : List Fields) : List Row :=
  rows.mapIdx fun i fields => ⟨first + i, owner, dataset, i, fields, time + i⟩

/-- What must not be null. -/
def present {α : Type} : Option α → Except Failure α
  | some a => .ok a
  | none => .error .failed

/-- The statements that insert rows with these fields, and the fields as they
are then stored. -/
def rowStatements (s : Store) (fields : List Fields) : Except Error (List Fields) := do
  if !fields.all Cell.membersHaveTexts then throw (.conversion .badValue)
  let written ← during .transaction (present (fields.mapM Cell.writtenMembers?))
  if !fields.isEmpty then during .transaction (s.statement [.rows] [])
  return written

/-- The statements that store a table as a dataset. -/
def ingestStatements (s : Store) (owner : Ident) (name filename : Option String)
    (u : Upload) : Except Error (Dataset × Store) := do
  let cells ← Error.ofConversion u.cells
  let columns ← Error.ofConversion u.columns
  during .transaction (s.statement [.datasets] owner.toList)
  let owner ← during .transaction (present owner)
  let name ← during .transaction (present name)
  let fields ← s.rowStatements (← Error.ofConversion (u.fields cells))
  let dataset : Dataset := {
    id := nextId (s.datasets.map (·.id))
    owner, name, filename
    rowCount := u.rows.length
    columnCount := columns.length
    columns
    uploaded := s.clock }
  let rows := newRows owner dataset.id (nextId (s.rows.map (·.id))) (s.clock + 1) fields
  return (dataset, { s with
    datasets := s.datasets ++ [dataset], rows := s.rows ++ rows
    clock := s.clock + 1 + fields.length })

/-- Store a table as a new dataset. -/
def ingest (s : Store) (owner : Ident) (name filename : Option String) (u : Upload) :
    Written Dataset :=
  s.commit (s.ingestStatements owner name filename u)

/-- The statements that delete a dataset, and whether there was one. -/
def deleteStatements (s : Store) (owner dataset : Ident) : Except Error (Bool × Store) :=
  during .transaction do
    let bound := dataset.toList ++ owner.toList
    s.statement [.rows] bound
    s.statement [.savedColumns] bound
    s.statement [.datasets] bound
    let isTarget (d : Dataset) : Bool := dataset.names d.id && owner.names d.owner
    return (s.datasets.any isTarget, { s with
      rows := s.rows.filter fun r => !(dataset.names r.dataset && owner.names r.owner)
      saved := s.saved.filter fun c => !(dataset.names c.dataset && owner.names c.owner)
      datasets := s.datasets.filter (!isTarget ·) })

/-- What a deletion answers: something must have been deleted. -/
def deleted (what : Absent) : Written Bool → Written Unit
  | (.ok true, s) => (.ok (), s)
  | (.ok false, s) => (.error (.absent what), s)
  | (.error e, s) => (.error e, s)

/-- Delete an owner's dataset with its rows and saved columns. -/
def deleteDataset (s : Store) (owner dataset : Ident) : Written Unit :=
  deleted .dataset (s.commit (s.deleteStatements owner dataset))

/-! ### Saved columns -/

/-- Store a formula under a name for a dataset. -/
def insertSaved (s : Store) (owner : Int) (dataset : Nat) (name formula : String) :
    Except Error (SavedColumn × Store) := do
  during .transaction (s.statement [.savedColumns] [owner, dataset])
  let column : SavedColumn := {
    id := nextId (s.saved.map (·.id))
    owner, dataset, name, formula
    created := s.clock }
  return (column, { s with saved := s.saved ++ [column], clock := s.clock + 1 })

/-- The statement that deletes a saved column, and whether there was one. -/
def deleteSavedStatement (s : Store) (owner column : Ident) : Except Error (Bool × Store) :=
  during .transaction do
    s.statement [.savedColumns] (column.toList ++ owner.toList)
    let isTarget (c : SavedColumn) : Bool := column.names c.id && owner.names c.owner
    return (s.saved.any isTarget, { s with saved := s.saved.filter (!isTarget ·) })

/-- Delete an owner's saved column. -/
def deleteSaved (s : Store) (owner column : Ident) : Written Unit :=
  deleted .savedColumn (s.commit (s.deleteSavedStatement owner column))

/-! ### Maintenance -/

/-- Set the upload time of a dataset. -/
def touchDataset (s : Store) (dataset : Int) (time : Nat) : Store :=
  { s with datasets := s.datasets.map fun d =>
      if (d.id : Int) = dataset then { d with uploaded := time } else d }

/-- Set the time at which a saved column was created. -/
def touchSaved (s : Store) (column : Int) (time : Nat) : Store :=
  { s with saved := s.saved.map fun c =>
      if (c.id : Int) = column then { c with created := time } else c }

/-- Drop a table. -/
def dropTable (s : Store) (t : Table) : Store :=
  { s with dropped := t :: s.dropped }

end Gridbook.Store
