/-
Gridbook/Filter.lean

Filters of a request: a column, the name of an operator, and a value.  `check`
refuses what no row query can mean and reads the bound of a comparison as a
double; `problems` lists what is wrong with a list of filters.
-/
import Gridbook.Form

namespace Gridbook

/-- The comparison that an operator's name stands for. -/
inductive Comparison where
  | equal
  | greater
  | less
  | contains
deriving Repr, DecidableEq

namespace Comparison

def name : Comparison → String
  | equal => "eq"
  | greater => "gt"
  | less => "lt"
  | contains => "contains"

def ofName? : String → Option Comparison
  | "eq" => some equal
  | "gt" => some greater
  | "lt" => some less
  | "contains" => some contains
  | _ => none

theorem ofName?_name (c : Comparison) : ofName? c.name = some c := by
  cases c <;> rfl

/-- Does the comparison need a number? -/
def isNumeric : Comparison → Bool
  | greater => true
  | less => true
  | _ => false

end Comparison

/-- A filter as it is asked for. -/
structure Filter where
  column : String
  operator : String
  value : Cell
deriving Repr

namespace Filter

/-- Read a filter from a form. -/
def ofCell (c : Cell) : Except Error Filter := do
  let form ← Form.object c
  let column ← Form.required Form.text form "column"
  let operator ← Form.required Form.text form "operator"
  return ⟨column, operator, form.cell "value"⟩

/-- Read a list of filters from a form. -/
def listOfCell (c : Cell) : Except Error (List Filter) := do
  (← Form.list c).mapM ofCell

/-- The bound of a numeric comparison as a double. -/
def bound (f : Filter) : Except Error Float :=
  match f.value.spelledNumber with
  | .ok x => .ok x
  | .error .overflow => .error .overflow
  | .error _ => .error (.problem (.filterValueNotNumeric f.column f.operator))

/-- The filter with its value as its operator needs it. -/
def check (f : Filter) : Except Error Filter :=
  if f.column.isEmpty then .error (.problem .filterColumnRequired)
  else
    match Comparison.ofName? f.operator with
    | none => .error (.problem (.unsupportedOperator f.operator))
    | some op =>
      if op.isNumeric then
        f.bound.map fun x => { f with value := .number (.real x) }
      else if f.value.isNull then .error (.problem (.filterValueRequired f.column))
      else .ok f

/-- What is wrong with the filters, in their order. -/
def problems : List Filter → Except Error (List Problem)
  | [] => .ok []
  | f :: fs =>
    match f.check with
    | .ok _ => problems fs
    | .error (.rejected ps _) => (problems fs).map (ps ++ ·)
    | .error e => .error e

end Filter

end Gridbook
