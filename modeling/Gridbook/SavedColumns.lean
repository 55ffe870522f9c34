/-
Gridbook/SavedColumns.lean

Saved columns: formulas kept under a name for a dataset, and evaluated when they
are asked for.  Only the text is checked when a formula is saved; its columns
are checked against the dataset whenever it is evaluated, and a formula that is
not fit has no value on any row.
-/
import Gridbook.Formula.Check
import Gridbook.Query.Overview
import Gridbook.Store.Write

namespace Gridbook.Store

/-! ### Saving -/

/-- The statements that save a formula, whose text and name are checked first. -/
def saveStatements (s : Store) (owner dataset : Ident) (name : Option String) (formula : Cell) :
    Except Error (SavedColumn × Store) := do
  let f ← Error.ofSyntax (Formula.ofCell formula)
  let name := Text.strip (name.getD "")
  if name.isEmpty then .error (.problem .columnNameRequired)
  else
    let d ← s.ownedDataset owner dataset
    s.insertSaved d.owner d.id name f.expression

/-- Save a formula under a name for a dataset. -/
def save (s : Store) (owner dataset : Ident) (name : Option String) (formula : Cell) :
    Written SavedColumn :=
  s.commit (s.saveStatements owner dataset name formula)

/-! ### Evaluating -/

/-- A formula's values on the rows if it is fit, else no value on any row. -/
def checkedBatch (known : List String) (rows : List Fields) (formula : String) :
    Except Error Formula.Batch := do
  let verdict ← Formula.checkText formula known
  if verdict.isValid then (← Error.ofSyntax (Formula.parse formula)).execute rows
  else return ⟨rows.map fun _ => none, verdict.errors⟩

/-- The values of the saved columns on the rows, by name; of two with one name
the older one counts. -/
def evaluateSaved [Reader] (s : Store) (owner : Ident) (dataset : Option Int)
    (rows : List Fields) :
    Except Error (Named Formula.Batch) := do
  let known := (← s.columns owner dataset (some defaultSampleSize)).map (·.name)
  let batches ← (← s.savedOf owner dataset).mapM fun c =>
    (checkedBatch known rows c.formula).map fun batch => (c.name, batch)
  return Named.ofPairs batches

end Gridbook.Store
