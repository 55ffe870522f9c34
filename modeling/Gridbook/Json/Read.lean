/-
Gridbook/Json/Read.lean

JSON text read into cells.  A number without fraction and exponent is a whole
number, any other a double; of two members with one name the last one counts.

The reader has fuel for one step more than the text has characters.  A list or
an object costs two steps to enter and has two brackets, and every other step
takes a character, so the fuel never runs out first.
-/
import Gridbook.Cell.Basic
import Gridbook.Number.Literal

namespace Gridbook.Json

/-- Drop the blanks of JSON at the start of a text. -/
def skip (cs : List Char) : List Char :=
  cs.dropWhile fun c => c = ' ' || c = '\t' || c = '\n' || c = '\r'

/-! ### Texts -/

def hexValue? (c : Char) : Option Nat :=
  if c.isDigit then some (c.toNat - '0'.toNat)
  else if 'a' ≤ c ∧ c ≤ 'f' then some (c.toNat - 'a'.toNat + 10)
  else if 'A' ≤ c ∧ c ≤ 'F' then some (c.toNat - 'A'.toNat + 10)
  else none

/-- Four hexadecimal digits. -/
def unit? : List Char → Option (Nat × List Char)
  | a :: b :: c :: d :: rest => do
    let a ← hexValue? a
    let b ← hexValue? b
    let c ← hexValue? c
    let d ← hexValue? d
    return (((a * 16 + b) * 16 + c) * 16 + d, rest)
  | _ => none

/-- The character of an escape, after its backslash.  Two units that form a
pair are one character; a unit without its partner has none of its own and
reads as the replacement character. -/
def escape? : List Char → Option (Char × List Char)
  | 'u' :: cs => do
    let (high, rest) ← unit? cs
    if 0xD800 ≤ high ∧ high < 0xDC00 then
      match rest with
      | '\\' :: 'u' :: more =>
        match unit? more with
        | some (low, after) =>
          if 0xDC00 ≤ low ∧ low < 0xE000 then
            return (Char.ofNat (0x10000 + (high - 0xD800) * 0x400 + (low - 0xDC00)), after)
          else return (Char.ofNat 0xFFFD, rest)
        | none => return (Char.ofNat 0xFFFD, rest)
      | _ => return (Char.ofNat 0xFFFD, rest)
    else if 0xDC00 ≤ high ∧ high < 0xE000 then return (Char.ofNat 0xFFFD, rest)
    else return (Char.ofNat high, rest)
  | 'n' :: cs => some ('\n', cs)
  | 'r' :: cs => some ('\r', cs)
  | 't' :: cs => some ('\t', cs)
  | 'b' :: cs => some (Char.ofNat 8, cs)
  | 'f' :: cs => some (Char.ofNat 12, cs)
  | c :: cs => if c = '"' ∨ c = '\\' ∨ c = '/' then some (c, cs) else none
  | [] => none

/-- The text up to its closing quote. -/
def readText (fuel : Nat) (cs : List Char) : Option (List Char × List Char) :=
  match fuel, cs with
  | fuel + 1, '\\' :: cs => do
    let (c, rest) ← escape? cs
    let (text, rest) ← readText fuel rest
    return (c :: text, rest)
  | fuel + 1, c :: cs =>
    if c = '"' then some ([], cs)
    else do
      let (text, rest) ← readText fuel cs
      return (c :: text, rest)
  | _, _ => none

/-! ### Numbers and words -/

/-- A number at the start of a text. -/
def readNumber (cs : List Char) : Option (Number × List Char) := do
  let (negative, body) := match cs with
    | '-' :: rest => (true, rest)
    | _ => (false, cs)
  let (l, rest) ← Literal.scan Char.isDigit body
  if l.point = [] ∧ l.exponent = none then
    let n : Int := Text.digitsValue l.whole
    return (.whole (if negative then -n else n), rest)
  else
    return (.real (if negative then -l.toReal else l.toReal), rest)

/-- The rest of a text that starts with `word`. -/
def dropWord? (word : String) (cs : List Char) : Option (List Char) :=
  if word.toList.isPrefixOf cs then some (cs.drop word.length) else none

/-! ### Values -/

mutual

/-- A value at the start of a text. -/
def readValue (fuel : Nat) (cs : List Char) : Option (Cell × List Char) :=
  match fuel, skip cs with
  | 0, _ => none
  | _, [] => none
  | fuel + 1, '\x7b' :: cs =>
    match skip cs with
    | '\x7d' :: rest => some (.object [], rest)
    | rest => do
      let (members, rest) ← readMembers fuel rest
      return (.object (Named.ofPairs members), rest)
  | fuel + 1, '[' :: cs =>
    match skip cs with
    | ']' :: rest => some (.list [], rest)
    | rest => do
      let (items, rest) ← readItems fuel rest
      return (.list items, rest)
  | fuel + 1, '"' :: cs => do
    let (text, rest) ← readText fuel cs
    return (.text (String.ofList text), rest)
  | _, cs =>
    ((dropWord? "null" cs).map fun rest => (Cell.null, rest))
      <|> ((dropWord? "true" cs).map fun rest => (.bool true, rest))
      <|> ((dropWord? "false" cs).map fun rest => (.bool false, rest))
      <|> ((readNumber cs).map fun r => (.number r.1, r.2))

/-- The elements of a list up to its bracket. -/
def readItems (fuel : Nat) (cs : List Char) : Option (List Cell × List Char) :=
  match fuel with
  | 0 => none
  | fuel + 1 => do
    let (item, rest) ← readValue fuel cs
    match skip rest with
    | ',' :: rest =>
      let (items, rest) ← readItems fuel rest
      return (item :: items, rest)
    | ']' :: rest => return ([item], rest)
    | _ => none

/-- The members of an object up to its brace. -/
def readMembers (fuel : Nat) (cs : List Char) : Option (List (String × Cell) × List Char) :=
  match fuel, skip cs with
  | fuel + 1, '"' :: cs => do
    let (name, rest) ← readText fuel cs
    match skip rest with
    | ':' :: rest =>
      let (value, rest) ← readValue fuel rest
      let member := (String.ofList name, value)
      match skip rest with
      | ',' :: rest =>
        let (members, rest) ← readMembers fuel rest
        return (member :: members, rest)
      | '\x7d' :: rest => return ([member], rest)
      | _ => none
    | _ => none
  | _, _ => none

end

/-- The value that a text holds, if it is one JSON value. -/
def read? (s : String) : Option Cell := do
  let cs := s.toList
  let (value, rest) ← readValue (cs.length + 1) cs
  if (skip rest).isEmpty then return value else none

end Gridbook.Json
