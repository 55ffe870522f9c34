/-
Gridbook/Formula/Check.lean

Is a formula fit for a dataset?  Its text must be a formula and its columns must
be known.  A formula without columns gets a warning, and since it has one value
for all rows, a fault in it counts as well.

A preview shows a formula's values on the first rows if the formula is fit.
-/
import Gridbook.Formula.Batch
import Gridbook.Window

namespace Gridbook

/-- The outcome of a check: it is passed when there are no errors. -/
structure Verdict where
  errors : List String
  warnings : List String
deriving Repr, DecidableEq

def Verdict.isValid (v : Verdict) : Bool :=
  v.errors.isEmpty

namespace Formula

/-- What is wrong with a formula's columns. -/
def columnErrors (f : Formula) (known : List String) : List String :=
  (f.columns.filter (· ∉ known)).map fun name => s!"Column '{name}' not found in dataset"

/-- Check a formula against the known columns. -/
def check (f : Formula) (known : List String) : Except Error Verdict :=
  if f.columns.isEmpty then
    let warnings := ["Formula contains no column references"]
    match f.outcome [] with
    | .ok (.ok _) => .ok ⟨[], warnings⟩
    | .ok (.error fault) => .ok ⟨["Formula evaluation error: " ++ fault.message], warnings⟩
    | .error e => .error e
  else .ok ⟨f.columnErrors known, []⟩

/-- Check a text against the known columns. -/
def checkText (s : String) (known : List String) : Except Error Verdict :=
  match parse s with
  | .ok f => f.check known
  | .error fault => .ok ⟨[fault.message], []⟩

/-- What a formula gives on the first rows. -/
structure Preview where
  columnName : String
  expression : String
  values : List (Option Float)
  errors : List String
deriving Repr

/-- The number of rows that a preview shows by default. -/
def defaultPreviewRows : Int := 10

/-- Preview a text on the rows up to `limit`. -/
def preview (s : String) (rows : List Fields) (known : List String) (limit : Option Int)
    (columnName : String) : Except Error Preview := do
  let verdict ← checkText s known
  if verdict.isValid then
    let batch ← (← Error.ofSyntax (parse s)).execute (upTo limit rows)
    return ⟨columnName, s, batch.values, batch.errors⟩
  else return ⟨columnName, s, [], verdict.errors⟩

end Formula

end Gridbook
