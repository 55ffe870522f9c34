/-
Gridbook/Form.lean

Fields of a request form, read loosely.  A whole number may come as a truth
value, as a double without fraction, or as a text; a double also as any number
or as a text; a text only as a text.  What does not fit is a misfit, and so is a
field that must be there and is not.

In the text of a number an underscore may divide two characters, and a whole
number may have a fraction of zeros.  A whole number that starts with zeros may
have its minus after them.
-/
import Gridbook.Cell.Numeric
import Gridbook.Error
import Gridbook.Text.Search

namespace Gridbook.Form

/-! ### Texts of numbers -/

/-- The text without its underscores, each of which must stand alone between
two characters, and of which there must be one. -/
def undivided? (cs : List Char) : Option (List Char) :=
  if '_' ∈ cs ∧ cs.head? ≠ some '_' ∧ cs.getLast? ≠ some '_' ∧ !Text.occursIn ['_', '_'] cs then
    some (cs.filter (· != '_'))
  else none

/-- The part of an unsigned numeral from its first digit other than zero on, or
from its last zero on if only a fraction follows.  Underscores may stand between
the zeros, and a minus may end them. -/
def withoutZeros? (last : Char) : List Char → Option (List Char)
  | [] => some [last]
  | c :: cs =>
    if c = '0' ∨ c = '_' then withoutZeros? c cs
    else if c.isDigit ∨ c = '-' then some (c :: cs)
    else if c = '.' then some (last :: c :: cs)
    else none

/-- The text before a fraction of zeros, if it has one. -/
def withoutZeroFraction (cs : List Char) : List Char :=
  let zeros := (cs.dropWhile (· != '.')).drop 1
  if zeros ≠ [] ∧ zeros.all (· == '0') then cs.takeWhile (· != '.') else cs

/-- The digits that the text of a whole number may have. -/
def longestWhole : Nat := 4300

/-- A run of ASCII digits, of bounded length, as a number. -/
def naturalOf? (cs : List Char) : Option Nat :=
  if cs ≠ [] ∧ cs.all Char.isDigit ∧ cs.length ≤ longestWhole then some (Text.digitsValue cs)
  else none

/-- The whole number of a numeral whose sign has been taken off. -/
def bareWholeOf? (cs : List Char) : Option Int := do
  let first ← cs.head?
  guard first.isDigit
  let kept ← if first = '0' then withoutZeros? first (cs.drop 1) else some cs
  let digits := withoutZeroFraction kept
  match (undivided? digits).getD digits with
  | '-' :: ds => (naturalOf? ds).map fun n => -(n : Int)
  | ds => (naturalOf? ds).map Int.ofNat

/-- The whole number that a text spells. -/
def wholeOfText? (s : String) : Option Int :=
  match Literal.splitSign (Text.trimBy Text.isWhiteSpace s.toList) with
  | (['-'], body) => (bareWholeOf? body).bind fun n => if n < 0 then none else some (-n)
  | (_, body) => bareWholeOf? body

/-- The double that a text spells, without blanks and underscores. -/
def plainRealOf? (cs : List Char) : Option Float :=
  let (sign, body) := Literal.splitSign cs
  let signed (x : Float) := if sign = ['-'] then -x else x
  if Spelled.isInfinityWord body then some (signed (1 / 0))
  else if Spelled.isNanWord body then some (0 / 0)
  else
    match Literal.scan Char.isDigit body with
    | some (l, []) => some (signed l.toReal)
    | _ => none

/-- The double that a text spells, either between blanks or with underscores. -/
def realOfText? (s : String) : Option Float :=
  plainRealOf? (Text.trimBy Text.isWhiteSpace s.toList)
    <|> (undivided? s.toList).bind plainRealOf?

/-! ### Values of fields -/

/-- The integer that a finite double without fraction equals. -/
def integralOf? (x : Float) : Option Int :=
  match Real.parts x with
  | .finite negative m s =>
    let units := m * twoTo s
    if units % Real.unitsPerOne = 0 then
      let n : Int := (units / Real.unitsPerOne : Nat)
      some (if negative then -n else n)
    else none
  | _ => none

/-- The whole number of a double, which has to be less than a word. -/
def wholeOfReal (x : Float) : Except Error Int :=
  match integralOf? x with
  | some n => if n.natAbs < twoTo 63 then .ok n else .error .misfit
  | none => .error .misfit

/-- A cell as a whole number.  A value of a typed column goes through a double,
if it is no text. -/
def whole : Cell → Except Error Int
  | .bool b => .ok (if b then 1 else 0)
  | .number (.whole n) => .ok n
  | .number n =>
    match n.toReal? with
    | some x => wholeOfReal x
    | none => .error .misfit
  | .typed (.bit b) => .ok (if b then 1 else 0)
  | .typed (.double x) => wholeOfReal x
  | .text s | .typed (.string s) =>
    match wholeOfText? s with
    | some n => .ok n
    | none => .error .misfit
  | _ => .error .misfit

/-- A cell as a double. -/
def real (c : Cell) : Except Error Float :=
  match c.plain with
  | .bool b => .ok (Cell.boolReal b)
  | .number n =>
    match n.toReal? with
    | some x => .ok x
    | none => .error .misfit
  | .text s =>
    match realOfText? s with
    | some x => .ok x
    | none => .error .misfit
  | _ => .error .misfit

/-- A cell as a text. -/
def text (c : Cell) : Except Error String :=
  match c.plain with
  | .text s => .ok s
  | _ => .error .misfit

/-- A cell as a list of cells. -/
def list : Cell → Except Error (List Cell)
  | .list items => .ok items
  | _ => .error .misfit

/-- A cell as fields by name. -/
def object : Cell → Except Error Fields
  | .object members => .ok members
  | _ => .error .misfit

/-! ### Fields of a form -/

/-- A field that has to be there. -/
def required {α : Type} (read : Cell → Except Error α) (form : Fields) (name : String) :
    Except Error α :=
  match form.lookup name with
  | some c => read c
  | none => .error .misfit

/-- A field with a default. -/
def withDefault {α : Type} (read : Cell → Except Error α) (default : α) (form : Fields)
    (name : String) : Except Error α :=
  match form.lookup name with
  | some c => read c
  | none => .ok default

/-- A cell that may be null. -/
def orNull {α : Type} (read : Cell → Except Error α) : Cell → Except Error (Option α)
  | .null => .ok none
  | c => (read c).map some

/-- A field that may be null, and is when it is not there. -/
def optional {α : Type} (read : Cell → Except Error α) (form : Fields) (name : String) :
    Except Error (Option α) :=
  orNull read (form.cell name)

/-- A text that is there and not empty. -/
def given (t : Option String) : Option String :=
  t.filter (!·.isEmpty)

end Gridbook.Form
