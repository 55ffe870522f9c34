/-
Gridbook/Calendar/Token.lean

The words of a phrase that names a date: numbers with an optional fraction,
words of letters, and single characters for everything else.

Letters and digits run together only around a full stop: a run of letters may go
on behind one with digits and the other way round, and a run of two or more
digits may go on behind a comma.  A run with both letters and a full stop, with
two full stops, or with a mark at its end is then cut at every mark; any other
is one number, in which a comma counts as the point.

Main statement: the character U+0000 divides nothing (`ofText_append_nul`).
-/
import Gridbook.Text.Blank
import Gridbook.Text.Digit

namespace Gridbook.Calendar

/-- A word of a phrase. -/
inductive Token where
  | number (whole : List Char) (fraction : Option (List Char))
  | word (letters : List Char)
  /-- A single character; every blank is U+0020. -/
  | mark (c : Char)
deriving Repr, DecidableEq

namespace Token

/-! ### Classes of characters -/

/-- Letters: those of the ASCII range, and whatever lies beyond it and is neither
blank nor digit. -/
def isLetter (c : Char) : Bool :=
  c.isAlpha || (0x80 ≤ c.toNat && !Text.isBlank c && !Text.isDigit c)

/-- The marks that may stand inside a run. -/
def isJoint (c : Char) : Bool :=
  c = '.' || c = ','

/-! ### Runs -/

/-- What a run of characters goes on with. -/
inductive Mode where
  | letters
  | digits
  /-- Letters, in a run with a full stop. -/
  | joinedLetters
  /-- Digits, in a run with a full stop or a comma. -/
  | joinedDigits
deriving Repr, DecidableEq

/-- Does a run in this mode go on with letters? -/
def Mode.isLettered : Mode → Bool
  | .letters | .joinedLetters => true
  | .digits | .joinedDigits => false

/-- Has a run in this mode a joint? -/
def Mode.isJoined : Mode → Bool
  | .letters | .digits => false
  | .joinedLetters | .joinedDigits => true

/-- Characters that stand together, the last one first. -/
structure Run where
  mode : Mode
  /-- Has a character been looked at behind a letter? -/
  sawLetters : Bool
  last : List Char
deriving Repr, DecidableEq

namespace Run

/-- The run that a character begins. -/
def start? (c : Char) : Option Run :=
  if isLetter c then some ⟨.letters, false, [c]⟩
  else if Text.isDigit c then some ⟨.digits, false, [c]⟩
  else none

/-- The mode in which a run goes on with a character. -/
def next? (r : Run) (c : Char) : Option Mode :=
  match r.mode with
  | .letters =>
    if isLetter c then some .letters
    else if c = '.' then some .joinedLetters
    else none
  | .digits =>
    if Text.isDigit c then some .digits
    else if c = '.' ∨ (c = ',' ∧ 2 ≤ r.last.length) then some .joinedDigits
    else none
  | .joinedLetters =>
    if c = '.' ∨ isLetter c then some .joinedLetters
    else if Text.isDigit c ∧ r.last.head? = some '.' then some .joinedDigits
    else none
  | .joinedDigits =>
    if c = '.' ∨ Text.isDigit c then some .joinedDigits
    else if isLetter c ∧ r.last.head? = some '.' then some .joinedLetters
    else none

/-- The run after a look at the character that follows it. -/
def looked (r : Run) : Run :=
  { r with sawLetters := r.sawLetters || r.mode.isLettered }

/-- Must the run be cut at its joints? -/
def isCut (r : Run) : Bool :=
  r.mode.isJoined
    && (r.sawLetters || 1 < r.last.count '.' || (r.last.head?.map isJoint).getD false)

/-- A run without joints as a token. -/
def plain (cs : List Char) : Token :=
  if cs.all Text.isDigit then number cs none else word cs

/-- The tokens of a run that is cut at its joints. -/
def pieces (cs : List Char) : List Token :=
  let step (c : Char) (acc : List Char × List Token) : List Char × List Token :=
    if isJoint c then
      ([], mark c :: if acc.1.isEmpty then acc.2 else plain acc.1 :: acc.2)
    else (c :: acc.1, acc.2)
  let (first, rest) := cs.foldr step ([], [])
  if first.isEmpty then rest else plain first :: rest

/-- A run with one joint as a number, if digits stand on both sides. -/
def whole (cs : List Char) : Token :=
  let before := cs.takeWhile Text.isDigit
  let behind := (cs.dropWhile Text.isDigit).drop 1
  if behind.all Text.isDigit then number before (some behind) else word cs

/-- The tokens of a run. -/
def tokens (r : Run) : List Token :=
  let cs := r.last.reverse
  if r.isCut then pieces cs
  else if r.mode.isJoined then [whole cs]
  else [plain cs]

end Run

/-! ### Texts -/

/-- The token of a character that stands alone. -/
def single (c : Char) : Token :=
  mark (if Text.isBlank c then ' ' else c)

/-- The tokens of a text behind a run that is not finished. -/
def scan : Option Run → List Char → List Token
  | none, [] => []
  | some r, [] => r.tokens
  | none, c :: cs =>
    match Run.start? c with
    | some r => scan (some r) cs
    | none => single c :: scan none cs
  | some r, c :: cs =>
    match r.next? c with
    | some mode => scan (some { r.looked with mode, last := c :: r.last }) cs
    | none =>
      r.looked.tokens ++
        match Run.start? c with
        | some r => scan (some r) cs
        | none => single c :: scan none cs

/-- The tokens of a text.  The character U+0000 is as if it were not there. -/
def ofText (cs : List Char) : List Token :=
  scan none (cs.filter (· ≠ '\x00'))

theorem ofText_append_nul (cs ds : List Char) :
    ofText (cs ++ '\x00' :: ds) = ofText (cs ++ ds) := by
  simp [ofText]

/-! ### What tokens mean -/

/-- The half of a day. -/
inductive Half where
  | morning
  | afternoon
deriving Repr, DecidableEq

/-- The unit of a part of a time of day. -/
inductive TimeUnit where
  | hour
  | minute
  | second
deriving Repr, DecidableEq

/-- The unit of the part that comes next. -/
def TimeUnit.finer? : TimeUnit → Option TimeUnit
  | hour => some minute
  | minute => some second
  | second => none

/-- Is the token one of these words, in any case? -/
def isOneOf (names : List String) : Token → Bool
  | word letters => names.contains (String.ofList (letters.map Char.toLower))
  | _ => false

/-- The names of the months, in order. -/
def monthNames : List (List String) :=
  [["jan", "january"], ["feb", "february"], ["mar", "march"], ["apr", "april"], ["may"],
   ["jun", "june"], ["jul", "july"], ["aug", "august"], ["sep", "sept", "september"],
   ["oct", "october"], ["nov", "november"], ["dec", "december"]]

/-- The number of the month that a token names. -/
def month? (t : Token) : Option Nat :=
  let i := monthNames.findIdx fun names => t.isOneOf names
  if i < monthNames.length then some (i + 1) else none

def isWeekday (t : Token) : Bool :=
  t.isOneOf ["mon", "monday", "tue", "tuesday", "wed", "wednesday", "thu", "thursday",
    "fri", "friday", "sat", "saturday", "sun", "sunday"]

def half? (t : Token) : Option Half :=
  if t.isOneOf ["a", "am"] then some .morning
  else if t.isOneOf ["p", "pm"] then some .afternoon
  else none

def unit? (t : Token) : Option TimeUnit :=
  if t.isOneOf ["h", "hour", "hours"] then some .hour
  else if t.isOneOf ["m", "minute", "minutes"] then some .minute
  else if t.isOneOf ["s", "second", "seconds"] then some .second
  else none

/-- Does the token tie a month to its year? -/
def isOf (t : Token) : Bool :=
  t.isOneOf ["of"]

/-- Does the token stand between the parts of a date without a meaning of its
own? -/
def isFiller (t : Token) : Bool :=
  match t with
  | mark c => [' ', '.', ',', ';', '-', '/', '\''].contains c
  | _ => t.isOneOf ["at", "on", "and", "ad", "m", "t", "of", "st", "nd", "rd", "th"]

/-- Is this a name of UTC as people write it? -/
def isUniversal (letters : List Char) : Bool :=
  ["UTC", "GMT", "Z", "z"].contains (String.ofList letters)

/-- Can this be the name of a time zone? -/
def isZoneName (letters : List Char) : Bool :=
  letters.length ≤ 5 && (letters.all Char.isUpper || isUniversal letters)

end Token

end Gridbook.Calendar
