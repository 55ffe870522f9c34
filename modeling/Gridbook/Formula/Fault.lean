/-
Gridbook/Formula/Fault.lean

What can be wrong with a formula: as a text, and on one row.  Positions in
messages count the characters from one.
-/
import Gridbook.Cell.Basic

namespace Gridbook.Formula

/-- Why a text is no formula. -/
inductive SyntaxFault where
  /-- There is nothing to read. -/
  | blank
  /-- No token starts with this character; `place` counts from zero. -/
  | badCharacter (c : Char) (place : Nat)
  /-- The token cannot stand where it does; `place` counts from zero. -/
  | badToken (text : String) (place : Nat)
  /-- An operand is missing at the end. -/
  | badEnd
  /-- A parenthesis is still open where it has to be closed. -/
  | unclosed
deriving Repr, DecidableEq

def SyntaxFault.message : SyntaxFault → String
  | blank => "Formula is empty"
  | badCharacter c place => s!"Unexpected character '{c}' at position {place + 1}"
  | badToken text place => s!"Unexpected token '{text}' at position {place + 1}"
  | badEnd => "Unexpected end of formula"
  | unclosed => "Missing closing parenthesis"

/-- Why a formula has no value on a row. -/
inductive Fault where
  /-- The row has no value in a column. -/
  | missing (column : String)
  /-- The value in a column is no plain number. -/
  | notNumeric (column : String) (c : Cell)
  | zeroDivision
deriving Repr

def Fault.message : Fault → String
  | missing column => s!"Column '{column}' is missing"
  | notNumeric column c =>
    let shown := String.ofList c.innerText
    s!"Column '{column}' is not numeric ({shown})"
  | zeroDivision => "Division by zero"

end Gridbook.Formula
