/-
Gridbook/Text/Quoted.lean

Quoted text for messages.  A text is written between single quotes, or between
double quotes when it holds a single quote and no double one.  The backslash,
the enclosing quote and what does not print are escaped; all else stands for
itself.
-/
import Gridbook.Text.Printable

namespace Gridbook.Text

/-- `n` in base 16, lower case, with at least `width` digits. -/
def hexDigits (width n : Nat) : List Char :=
  let ds := Nat.toDigits 16 n
  List.replicate (width - ds.length) '0' ++ ds

/-- The escape of a character by its code point: two, four or eight digits. -/
def codeEscape (c : Char) : List Char :=
  let n := c.toNat
  if n < 0x100 then '\\' :: 'x' :: hexDigits 2 n
  else if n < 0x10000 then '\\' :: 'u' :: hexDigits 4 n
  else '\\' :: 'U' :: hexDigits 8 n

/-- One character of a quoted text whose enclosing quote is `quote`. -/
def quotedChar (quote c : Char) : List Char :=
  if c = quote ∨ c = '\\' then ['\\', c]
  else if c = '\n' then ['\\', 'n']
  else if c = '\r' then ['\\', 'r']
  else if c = '\t' then ['\\', 't']
  else if isPrintable c then [c]
  else codeEscape c

/-- The quote that encloses `cs`: the single one, unless only that one occurs. -/
def enclosingQuote (cs : List Char) : Char :=
  if '\'' ∈ cs ∧ '"' ∉ cs then '"' else '\''

/-- `cs` between quotes, with escapes. -/
def quoted (cs : List Char) : List Char :=
  let q := enclosingQuote cs
  q :: (cs.flatMap (quotedChar q) ++ [q])

/-- `quoted` on strings. -/
def quote (s : String) : String :=
  String.ofList (quoted s.toList)

end Gridbook.Text
