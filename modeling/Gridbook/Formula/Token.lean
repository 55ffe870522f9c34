/-
Gridbook/Formula/Token.lean

The tokens of a formula: number literals, names, the four operators and the two
parentheses, with blanks between them.  `lex` cuts a text into placed tokens,
each the longest that can start at its place, and stops at the first character
that is no blank and starts no token.

Main statements: `next?` splits the text (`text_append_of_next?`) and takes at
least one character (`length_of_next?`).
-/
import Gridbook.Formula.Fault
import Gridbook.Number.Literal
import Gridbook.Text.Blank

namespace Gridbook.Formula

inductive Operator where
  | plus
  | minus
  | times
  | divide
deriving Repr, DecidableEq

def Operator.sign : Operator → Char
  | plus => '+'
  | minus => '-'
  | times => '*'
  | divide => '/'

inductive Token where
  | number (l : Literal)
  | name (cs : List Char)
  | operator (op : Operator)
  | opening
  | closing
deriving Repr, DecidableEq

namespace Token

/-- The characters of a token. -/
def text : Token → List Char
  | number l => l.text
  | name cs => cs
  | operator op => [op.sign]
  | opening => ['(']
  | closing => [')']

end Token

/-- A token and the number of characters before it. -/
structure Placed where
  token : Token
  place : Nat
deriving Repr, DecidableEq

/-! ### One token -/

/-- ASCII letters and the underscore. -/
def isNameStart (c : Char) : Bool :=
  c.isAlpha || c == '_'

/-- ASCII letters, ASCII digits and the underscore. -/
def isNamePart (c : Char) : Bool :=
  isNameStart c || c.isDigit

/-- The token of a character that stands alone. -/
def symbol? : Char → Option Token
  | '+' => some (.operator .plus)
  | '-' => some (.operator .minus)
  | '*' => some (.operator .times)
  | '/' => some (.operator .divide)
  | '(' => some .opening
  | ')' => some .closing
  | _ => none

/-- The longest token at the start of a text, and what follows. -/
def next? (cs : List Char) : Option (Token × List Char) :=
  match Literal.scan Text.isDigit cs with
  | some (l, rest) => some (.number l, rest)
  | none =>
    match cs with
    | [] => none
    | c :: rest =>
      if isNameStart c then
        some (.name (c :: rest.takeWhile isNamePart), rest.dropWhile isNamePart)
      else (symbol? c).map fun t => (t, rest)

theorem text_of_symbol? {c : Char} {t : Token} (h : symbol? c = some t) : t.text = [c] := by
  unfold symbol? at h
  split at h <;> cases h <;> rfl

theorem text_append_of_next? {cs rest : List Char} {t : Token}
    (h : next? cs = some (t, rest)) : t.text ++ rest = cs := by
  unfold next? at h
  split at h
  · next hs => cases h; exact Literal.text_append_of_scan hs
  · cases cs with
    | nil => cases h
    | cons c cs =>
      simp only at h
      split at h
      · cases h
        simp [Token.text, List.takeWhile_append_dropWhile]
      · obtain ⟨t', ht, he⟩ := Option.map_eq_some_iff.1 h
        cases he
        simp [text_of_symbol? ht]

theorem text_ne_nil_of_next? {cs rest : List Char} {t : Token}
    (h : next? cs = some (t, rest)) : t.text ≠ [] := by
  unfold next? at h
  split at h
  · next l r hs =>
    cases h
    have := Literal.digits_ne_nil_of_scan hs
    simp only [ne_eq, List.append_eq_nil_iff, not_and] at this
    simp only [Token.text, Literal.text, ne_eq, List.append_eq_nil_iff, not_and]
    intro h1 h2
    exact absurd h1.2 (this h1.1.1)
  · cases cs with
    | nil => cases h
    | cons c cs =>
      simp only at h
      split at h
      · cases h
        simp [Token.text]
      · obtain ⟨t', ht, he⟩ := Option.map_eq_some_iff.1 h
        cases he
        simp [text_of_symbol? ht]

theorem length_of_next? {cs rest : List Char} {t : Token}
    (h : next? cs = some (t, rest)) : rest.length < cs.length := by
  have h1 := congrArg List.length (text_append_of_next? h)
  have h2 := List.length_pos_iff.2 (text_ne_nil_of_next? h)
  rw [List.length_append] at h1
  omega

/-! ### All tokens -/

/-- The tokens of a text that starts after `place` characters. -/
def lexFrom (place : Nat) (cs : List Char) : Except SyntaxFault (List Placed) :=
  let start := place + (cs.takeWhile Text.isBlank).length
  match hn : next? (cs.dropWhile Text.isBlank) with
  | some (t, rest) =>
    have := length_of_next? hn
    (lexFrom (start + t.text.length) rest).map (⟨t, start⟩ :: ·)
  | none =>
    match cs.dropWhile Text.isBlank with
    | [] => .ok []
    | c :: _ => .error (.badCharacter c start)
termination_by cs.length
decreasing_by
  have h := (List.dropWhile_suffix Text.isBlank (l := cs)).length_le
  omega

/-- The tokens of a text. -/
def lex (s : String) : Except SyntaxFault (List Placed) :=
  lexFrom 0 s.toList

end Gridbook.Formula
