/-
Gridbook/Formula/Batch.lean

A formula on a list of rows.  A row on which the formula has no value gets none,
and its fault is listed with the row's number; the other rows are not affected.
All values of a batch are doubles.
-/
import Gridbook.Formula.Evaluation

namespace Gridbook.Formula

/-- The fault of one row; `row` counts from zero. -/
structure RowFault where
  row : Nat
  fault : Fault
deriving Repr

/-- Row numbers in messages count from one. -/
def RowFault.message (r : RowFault) : String :=
  s!"Row {r.row + 1}: " ++ r.fault.message

/-- What a formula gives on a list of rows. -/
structure Batch where
  values : List (Option Float)
  errors : List String
deriving Repr

/-- The outcome of one row: a number, or the fault for which there is none. -/
def outcome (f : Formula) (fields : Fields) : Except Error (Except Fault Number) :=
  match f.value fields with
  | .ok n => .ok (.ok n)
  | .error (.evaluation fault) => .ok (.error fault)
  | .error e => .error e

/-- The outcomes that are no numbers, with their places from `row` on. -/
def faultsFrom (row : Nat) : List (Except Fault Number) → List RowFault
  | [] => []
  | .ok _ :: os => faultsFrom (row + 1) os
  | .error fault :: os => ⟨row, fault⟩ :: faultsFrom (row + 1) os

/-- An outcome as a double. -/
def realOutcome : Except Fault Number → Except Error (Option Float)
  | .error _ => .ok none
  | .ok n =>
    match n.toReal? with
    | some x => .ok (some x)
    | none => .error .misfit

/-- The formula's values on a list of rows. -/
def execute (f : Formula) (rows : List Fields) : Except Error Batch := do
  let outcomes ← rows.mapM (outcome f)
  let values ← outcomes.mapM realOutcome
  return ⟨values, (faultsFrom 0 outcomes).map RowFault.message⟩

end Gridbook.Formula
