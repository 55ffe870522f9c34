/-
Gridbook/Store/Pattern.lean

Search patterns.  In a pattern `%` stands for any characters or none, `_` for any one
character, and a mark before a character for that character itself; every other one
stands for itself, in its case.  A pattern ends at its first NUL, and one that ends
with a mark fits nothing.

A text is searched for by the pattern that has it between any characters, with a mark
before every character of it that has a meaning in patterns.
-/
namespace Gridbook

/-- What a part of a pattern stands for. -/
inductive Piece where
  /-- Any characters, or none. -/
  | gap
  /-- Any one character. -/
  | any
  /-- This character. -/
  | exact (c : Char)
deriving Repr, DecidableEq

namespace Pattern

/-! ### Writing patterns -/

/-- The character before one that stands for itself. -/
def mark : Char := '/'

/-- Has the character a meaning in patterns? -/
def isSpecial (c : Char) : Bool :=
  c = '%' || c = '_' || c = mark

/-- A text as a part of a pattern. -/
def escaped : List Char → List Char
  | [] => []
  | c :: cs => if isSpecial c then mark :: c :: escaped cs else c :: escaped cs

/-- The pattern by which a text is searched for. -/
def ofSearch (needle : List Char) : List Char :=
  '%' :: (escaped needle ++ ['%'])

/-! ### Reading patterns -/

/-- What a character without a mark before it stands for. -/
def pieceOf (c : Char) : Piece :=
  if c = '%' then .gap else if c = '_' then .any else .exact c

/-- The pieces of a pattern; none if it ends with a mark. -/
def pieces? : List Char → Option (List Piece)
  | [] => some []
  | c :: cs =>
    if c = mark then
      match cs with
      | [] => none
      | d :: ds => (pieces? ds).map (.exact d :: ·)
    else (pieces? cs).map (pieceOf c :: ·)

/-! ### Testing texts -/

/-- Is there a rest of the text that passes?  The longest one is tried first. -/
def someRest (passes : List Char → Bool) : List Char → Bool
  | [] => passes []
  | c :: cs => passes (c :: cs) || someRest passes cs

/-- Do the pieces, one after another, take up the whole text? -/
def fits : List Piece → List Char → Bool
  | [], cs => cs.isEmpty
  | .gap :: ps, cs => someRest (fits ps) cs
  | .any :: _, [] => false
  | .any :: ps, _ :: cs => fits ps cs
  | .exact _ :: _, [] => false
  | .exact c :: ps, d :: cs => c == d && fits ps cs

/-- Does the pattern fit the text? -/
def admits (pattern text : List Char) : Bool :=
  ((pieces? (pattern.takeWhile (· != '\x00'))).map (fits · text)).getD false

end Pattern

end Gridbook
