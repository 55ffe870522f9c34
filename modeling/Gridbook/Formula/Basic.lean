/-
Gridbook/Formula/Basic.lean

Formulas: a text together with the tree that it spells and the columns that were
noted as it was read.
-/
import Gridbook.Formula.Tree

namespace Gridbook

/-- A formula that has been read. -/
structure Formula where
  expression : String
  tree : Formula.Tree
  /-- The columns that the formula mentions, sorted and each once. -/
  columns : List String
deriving Repr

namespace Formula

/-- Read a formula.  A text of blanks is refused before anything else. -/
def parse (s : String) : Except SyntaxFault Formula :=
  if s.toList.all Text.isBlank then .error .blank
  else do
    let parser ← (← lex s).foldlM Parser.read Parser.start
    return ⟨s, ← finish parser.state, parser.columns⟩

/-- Read a formula from a cell, which has to be a text. -/
def ofCell (c : Cell) : Except SyntaxFault Formula :=
  match c.plain with
  | .text s => parse s
  | _ => .error .blank

end Formula

end Gridbook
