/-
Gridbook/Cell/Basic.lean

Cells: the values that a field can hold.  Null, truth values, numbers, texts,
and lists and objects of cells can be stored; a table that is read in from
outside may also hold values of typed columns: dates, instants, the missing
instant, bits, words, doubles and texts.  `Cell.plain` is such a value without
its type.

`Cell.label` is a cell as a text for people: a text stands for itself, and
inside a list or an object it is quoted, and a value of a typed column shows its
type.  A whole number has a text up to a length of 4300 digits; `Cell.hasText`
says whether all numbers in a cell have one.
-/
import Gridbook.Calendar.Spelled
import Gridbook.Named
import Gridbook.Number
import Gridbook.Real.Text
import Gridbook.Text.Quoted

namespace Gridbook

/-- A value of a typed column. -/
inductive Typed where
  | date (d : Date)
  | instant (t : Instant)
  /-- The instant that is missing from a column of instants. -/
  | noTime
  /-- A truth value of a column of bits. -/
  | bit (b : Bool)
  /-- A double of a column of doubles. -/
  | double (x : Float)
  /-- A text of a column of texts. -/
  | string (s : String)
deriving Repr

/-- A value of a field.  A word is a number of a column of words. -/
inductive Cell where
  | null
  | bool (b : Bool)
  | number (n : Number)
  | text (s : String)
  | list (items : List Cell)
  | object (members : List (String × Cell))
  | typed (t : Typed)
deriving Repr, Inhabited

/-- The fields of a row: cells by column name, each name once. -/
abbrev Fields := Named Cell

/-! ### Texts of numbers -/

/-- An integer in decimal. -/
def wholeText (n : Int) : List Char :=
  let ds := Nat.toDigits 10 n.natAbs
  if n < 0 then '-' :: ds else ds

def Number.text : Number → List Char
  | whole n => wholeText n
  | word w => wholeText w.toInt
  | real x => Real.text x

namespace Cell

/-! ### Texts of cells -/

def boolText (b : Bool) : List Char :=
  (if b then "True" else "False").toList

/-- A value of a typed column by itself. -/
def typedText : Typed → List Char
  | .date d => d.iso
  | .instant t => t.isoWith ' '
  | .noTime => "NaT".toList
  | .bit b => boolText b
  | .double x => Real.text x
  | .string s => s.toList

/-- A value of a typed column as it stands inside a list or an object. -/
def typedInner : Typed → List Char
  | .date d => d.spelled
  | .instant t => t.spelled
  | .noTime => "NaT".toList
  | .bit b => "np.".toList ++ boolText b ++ ['_']
  | .double x => Text.withParts "np.float64" [Real.text x]
  | .string s => Text.withParts "np.str_" [Text.quoted s.toList]

/-- A number as it stands inside a list or an object: a word shows its type. -/
def numberInner : Number → List Char
  | .word w => Text.withParts "np.int64" [wholeText w.toInt]
  | n => n.text

mutual

/-- A cell as it stands inside a list or an object: texts are quoted. -/
def innerText : Cell → List Char
  | null => "None".toList
  | bool b => boolText b
  | number n => numberInner n
  | text s => Text.quoted s.toList
  | list items => '[' :: Text.commaSeparated (innerTexts items) ++ [']']
  | object members => '{' :: Text.commaSeparated (memberTexts members) ++ ['}']
  | typed t => typedInner t

def innerTexts : List Cell → List (List Char)
  | [] => []
  | c :: cs => innerText c :: innerTexts cs

def memberTexts : List (String × Cell) → List (List Char)
  | [] => []
  | (k, c) :: ms => (Text.quoted k.toList ++ ':' :: ' ' :: innerText c) :: memberTexts ms

end

/-- A cell as a text for people. -/
def label : Cell → String
  | text s => s
  | number n => String.ofList n.text
  | typed t => String.ofList (typedText t)
  | c => String.ofList (innerText c)

/-! ### Cells that have a text -/

/-- The digits that the text of a whole number may have. -/
def longestNumeral : Nat := 4300

mutual

/-- Has every whole number in the cell a text? -/
def hasText : Cell → Bool
  | number (.whole n) => n.natAbs < tenTo longestNumeral
  | list items => haveTexts items
  | object members => membersHaveTexts members
  | _ => true

def haveTexts : List Cell → Bool
  | [] => true
  | c :: cs => hasText c && haveTexts cs

def membersHaveTexts : List (String × Cell) → Bool
  | [] => true
  | (_, c) :: ms => hasText c && membersHaveTexts ms

end

/-! ### Values without their type -/

/-- A value of a typed column as a cell of its own, where there is one. -/
def plain : Cell → Cell
  | number (.word w) => number (.whole w.toInt)
  | typed (.bit b) => bool b
  | typed (.double x) => number (.real x)
  | typed (.string s) => text s
  | c => c

/-! ### Null -/

def isNull : Cell → Bool
  | null => true
  | _ => false

theorem eq_null_of_isNull {c : Cell} (h : c.isNull) : c = null := by
  cases c with
  | null => rfl
  | _ => cases h

/-- Is the cell null, or a value that stands for a missing one? -/
def isMissing : Cell → Bool
  | null => true
  | number n => n.isNan
  | typed (.double x) => x.isNaN
  | typed .noTime => true
  | _ => false

end Cell

namespace Fields

/-- The cell of a column; null if the row has none. -/
def cell (fields : Fields) (column : String) : Cell :=
  (fields.lookup column).getD .null

/-- Does the row have a value in this column? -/
def has (fields : Fields) (column : String) : Bool :=
  !(fields.cell column).isNull

end Fields

end Gridbook
