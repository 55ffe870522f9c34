/-
Gridbook/Real/Text.lean

The written form of a double: its sign, then the decimal that stands for it in
some layout; the values that are not finite have names of their own.

`text` is the shortest form that reads back as the same double.
-/
import Gridbook.Real.Digits

namespace Gridbook.Real

/-- The names of the values that are not finite. -/
structure Names where
  nan : String
  infinity : String

/-- A double by the decimal that `digits` chooses for it. -/
def textWith (names : Names) (layout : Decimal.Layout) (digits : Nat → Nat → Decimal)
    (x : Float) : List Char :=
  let signed (negative : Bool) (cs : List Char) := if negative then '-' :: cs else cs
  match parts x with
  | .nan => names.nan.toList
  | .infinite negative => signed negative names.infinity.toList
  | .finite negative m s => signed negative ((digits m s).render layout)

/-- Positional from `10^-4` up to `10^16`. -/
def shortLayout : Decimal.Layout := ⟨-4, 16, false⟩

/-- The fewest digits that read back. -/
def text : Float → List Char :=
  textWith ⟨"nan", "inf"⟩ shortLayout shortest

end Gridbook.Real
