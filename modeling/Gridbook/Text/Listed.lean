/-
Gridbook/Text/Listed.lean

Texts in a row, with a comma and a blank between them, and a name with such a
row in parentheses.
-/
namespace Gridbook.Text

/-- Texts with a comma and a blank between them. -/
def commaSeparated : List (List Char) → List Char
  | [] => []
  | [t] => t
  | t :: ts => t ++ ',' :: ' ' :: commaSeparated ts

/-- A name with its parts in parentheses. -/
def withParts (name : String) (parts : List (List Char)) : List Char :=
  name.toList ++ '(' :: commaSeparated parts ++ [')']

end Gridbook.Text
