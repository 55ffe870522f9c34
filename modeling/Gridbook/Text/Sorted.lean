/-
Gridbook/Text/Sorted.lean

Texts in order.  Texts are ordered by their code points; `sortedDistinct` lists
the members of a list in that order, each once, and `insertDistinct` adds one to
such a list.
-/
import Gridbook.Sorting

namespace Gridbook.Text

/-- The members of a list in increasing order, each once. -/
def sortedDistinct (xs : List String) : List String :=
  (sortBy (fun a b => decide (a ≤ b)) xs).eraseReps

/-- Add a text to a list in increasing order, unless it is there. -/
def insertDistinct (x : String) : List String → List String
  | [] => [x]
  | y :: ys =>
    if x < y then x :: y :: ys
    else if x = y then y :: ys
    else y :: insertDistinct x ys

end Gridbook.Text
