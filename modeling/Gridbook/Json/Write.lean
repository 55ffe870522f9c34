/-
Gridbook/Json/Write.lean

Cells as JSON text in ASCII: a character outside the printable ASCII range is
escaped by its UTF-16 units, a double is written by the fewest digits that read
back, and a value that is not finite by its name.

`escaped` also tells how the text of a stored key looks, which is what a path
into a stored row is compared with.
-/
import Gridbook.Cell.Basic

namespace Gridbook.Json

/-! ### Texts -/

/-- One UTF-16 unit by its number. -/
def unitEscape (n : Nat) : List Char :=
  '\\' :: 'u' :: Text.hexDigits 4 n

/-- One character of a text. -/
def escapedChar (c : Char) : List Char :=
  if c = '"' ∨ c = '\\' then ['\\', c]
  else if c = '\n' then ['\\', 'n']
  else if c = '\r' then ['\\', 'r']
  else if c = '\t' then ['\\', 't']
  else if c.toNat = 8 then ['\\', 'b']
  else if c.toNat = 12 then ['\\', 'f']
  else if 0x20 ≤ c.toNat ∧ c.toNat ≤ 0x7E then [c]
  else if c.toNat < 0x10000 then unitEscape c.toNat
  else
    let n := c.toNat - 0x10000
    unitEscape (0xD800 + n / 0x400) ++ unitEscape (0xDC00 + n % 0x400)

/-- A text with its escapes, without the quotes. -/
def escaped (cs : List Char) : List Char :=
  cs.flatMap escapedChar

def textToken (s : String) : List Char :=
  '"' :: (escaped s.toList ++ ['"'])

/-! ### Numbers -/

/-- A double; the names of those that are not finite are no JSON. -/
def realToken : Float → List Char :=
  Real.textWith ⟨"NaN", "Infinity"⟩ Real.shortLayout Real.shortest

def numberToken : Number → List Char
  | .whole n => wholeText n
  | .word w => wholeText w.toInt
  | .real x => realToken x

/-! ### Cells -/

/-- Texts with `separator` between them. -/
def separated (separator : List Char) : List (List Char) → List Char
  | [] => []
  | [t] => t
  | t :: ts => t ++ separator ++ separated separator ts

mutual

/-- A cell as compact JSON.  Values of typed columns are written as text. -/
def compact : Cell → List Char
  | .null => "null".toList
  | .bool b => (if b then "true" else "false").toList
  | .number n => numberToken n
  | .text s => textToken s
  | .list items => '[' :: (separated [','] (compactItems items) ++ [']'])
  | .object members => '\x7b' :: (separated [','] (compactMembers members) ++ ['\x7d'])
  | .typed t => textToken (String.ofList (Cell.typedText t))

def compactItems : List Cell → List (List Char)
  | [] => []
  | c :: cs => compact c :: compactItems cs

def compactMembers : List (String × Cell) → List (List Char)
  | [] => []
  | (k, c) :: ms => (textToken k ++ ':' :: compact c) :: compactMembers ms

end

/-- A cell as compact JSON. -/
def write (c : Cell) : String :=
  String.ofList (compact c)

end Gridbook.Json
