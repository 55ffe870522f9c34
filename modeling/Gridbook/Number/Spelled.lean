/-
Gridbook/Number/Spelled.lean

Doubles as people spell them.  Between white space stands an optional sign and
then a literal, in which an underscore may divide two digits, or one of the words
for infinity and not-a-number in any case.
-/
import Gridbook.Number.Literal
import Gridbook.Text.Blank

namespace Gridbook.Spelled

/-- The text without its underscores, each of which must divide two digits;
`before` says whether a digit stands just before the text. -/
def withoutDividers? (before : Bool) : List Char → Option (List Char)
  | [] => some []
  | '_' :: cs =>
    if before && (cs.head?.map Text.isDigit).getD false then withoutDividers? false cs else none
  | c :: cs => (withoutDividers? (Text.isDigit c) cs).map (c :: ·)

/-- The word for infinity. -/
def isInfinityWord (cs : List Char) : Bool :=
  let w := cs.map Char.toLower
  w = "inf".toList || w = "infinity".toList

/-- The word for not-a-number. -/
def isNanWord (cs : List Char) : Bool :=
  cs.map Char.toLower = "nan".toList

/-- The whole number that a text spells in digits. -/
def whole? (cs : List Char) : Option Int := do
  let (sign, body) := Literal.splitSign (Text.trimBy Text.isWhiteSpace cs)
  let ds ← withoutDividers? false body
  guard (!ds.isEmpty ∧ ds.all Text.isDigit)
  let n : Int := Text.digitsValue ds
  return if sign = ['-'] then -n else n

/-- The double that a text spells. -/
def real? (s : String) : Option Float :=
  let cs := Text.trimBy Text.isWhiteSpace s.toList
  let (sign, body) := Literal.splitSign cs
  let signed (x : Float) := if sign = ['-'] then -x else x
  if isInfinityWord body then some (signed (1 / 0))
  else if isNanWord body then some (0 / 0)
  else (withoutDividers? false cs).bind Literal.plainReal?

end Gridbook.Spelled
