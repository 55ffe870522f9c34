/-
Gridbook/Formula/Evaluation.lean

The value of a formula on a row.  Operands are evaluated from left to right,
none is skipped, and the divisor is tested when both sides have a value.  A
column must hold a plain number.

A fault belongs to the row.  A number beyond the finite doubles, where a double
is needed, is no fault of the row and fails the request, and so does a cell that
is no number and has no text to show.
-/
import Gridbook.Error
import Gridbook.Formula.Basic

namespace Gridbook.Formula

/-- The number that a row holds in a column. -/
def columnValue (fields : Fields) (name : String) : Except Error Number :=
  let c := fields.cell name
  if c.isNull then .error (.evaluation (.missing name))
  else
    match c.strictNumber with
    | .ok (some n) => .ok n
    | .ok none =>
      if c.hasText then .error (.evaluation (.notNumeric name c))
      else .error (.conversion .badValue)
    | .error f => .error (.conversion f)

/-- The result of an operator on two values. -/
def Operator.apply (op : Operator) (a b : Number) : Except Error Number :=
  let orOverflow (r : Option Number) : Except Error Number :=
    match r with
    | some n => .ok n
    | none => .error .overflow
  match op with
  | .plus => orOverflow (a.add? b)
  | .minus => orOverflow (a.sub? b)
  | .times => orOverflow (a.mul? b)
  | .divide =>
    if b.isZero then .error (.evaluation .zeroDivision) else orOverflow (a.div? b)

/-- The value of a tree on a row. -/
def Tree.value (fields : Fields) : Tree → Except Error Number
  | literal x => .ok (.real x)
  | column name => columnValue fields name
  | negate t => do
    let n ← t.value fields
    return n.neg
  | binary op l r => do
    let a ← l.value fields
    let b ← r.value fields
    op.apply a b

/-- The value of a formula on a row. -/
def value (f : Formula) (fields : Fields) : Except Error Number :=
  f.tree.value fields

end Gridbook.Formula
