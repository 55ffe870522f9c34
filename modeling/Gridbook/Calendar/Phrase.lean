/-
Gridbook/Calendar/Phrase.lean

Dates and times of day in free form, token by token.  `Phrase.step` reads one
token with what stands before and behind it, adds what it says to the draft and
tells how many of the tokens behind it are used up; a token that says nothing and
is no filler ends the reading.

Main statement: the reading of a phrase depends on a token only through `step`
(`Phrase.read_cons`).
-/
import Gridbook.Calendar.Draft

namespace Gridbook.Calendar.Phrase

open Token

/-! ### Numbers -/

/-- The whole seconds, or minutes, in sixtieths of the unit before: those of a
fraction given by its digits, if it is not zero. -/
def sixtieths? (fraction : Option (List Char)) : Option Nat :=
  match fraction with
  | none => none
  | some ds =>
    let n := Text.digitsValue ds
    if n = 0 then none else some (60 * n / tenTo ds.length)

/-- The first six digits of a fraction, as microseconds. -/
def micros (fraction : Option (List Char)) : Nat :=
  let six := (fraction.getD []).take 6
  Text.digitsValue six * tenTo (6 - six.length)

/-- An hour of a half of the day. -/
def hourOfHalf (hour : Nat) (half : Half) : Nat :=
  match half with
  | .afternoon => if hour < 12 then hour + 12 else hour
  | .morning => if hour = 12 then 0 else hour

/-- The draft with a minute, and the second that its fraction makes. -/
def withMinute (d : Draft) (whole : List Char) (fraction : Option (List Char)) : Draft :=
  { d with minute := some (Text.digitsValue whole), second := sixtieths? fraction }

/-- The draft with a second and its fraction. -/
def withSecond (d : Draft) (whole : List Char) (fraction : Option (List Char)) : Draft :=
  { d with second := some (Text.digitsValue whole), micro := micros fraction }

/-- The draft with a part of the time of day. -/
def withUnit (d : Draft) (whole : List Char) (fraction : Option (List Char)) :
    Option TimeUnit → Draft
  | some .hour =>
    { d with hour := some (Text.digitsValue whole),
             minute := (sixtieths? fraction).or d.minute }
  | some .minute => withMinute d whole fraction
  | some .second => withSecond d whole fraction
  | none => d

/-! ### The surroundings of a number -/

/-- The token behind a blank. -/
def behindBlank : List Token → Option Token
  | .mark ' ' :: t :: _ => some t
  | _ => none

/-- The unit of a number, and how many tokens behind the number name it.  A unit
before the number stands for the one that follows it. -/
def unitOf? (before rest : List Token) : Option (Option TimeUnit × Nat) :=
  ((rest.head?.bind unit?).map fun u => (some u, 1))
    <|> (((behindBlank rest).bind unit?).map fun u => (some u, 2))
    <|> ((before.head?.bind unit?).map fun u => (u.finer?, 0))
    <|> (if rest.isEmpty then ((behindBlank before).bind unit?).map fun u => (u.finer?, 0)
         else none)

/-- Does a time of day go on behind a number? -/
def isClockNext (rest : List Token) : Bool :=
  match rest with
  | [] => false
  | t :: _ => t = .mark ':' || t.unit?.isSome

/-- The number of the tokens used up, for a draft that may have failed. -/
def consuming (d : Option Draft) (n : Nat) : Option (Draft × Nat) :=
  d.map fun d => (d, n)

/-- A month by name or a number. -/
def addNamed? (d : Draft) (t : Token) : Option Draft :=
  match t.month? with
  | some m => d.addMonth? m
  | none => d.addToken? t

/-- The third number of a date, if the divider stands once more, and how many
tokens it takes. -/
def addThird? (d : Draft) (divider : Char) (rest : List Token)
    (add? : Draft → Token → Option Draft) : Option (Draft × Nat) :=
  match rest with
  | .mark c :: rest =>
    if c = divider then do
      let d ← add? d (← rest.head?)
      return (d, 2)
    else some (d, 0)
  | _ => some (d, 0)

/-- A number, a divider and what stands behind it. -/
def divided? (d : Draft) (number : Token) (divider : Char) (rest : List Token) :
    Option (Draft × Nat) := do
  let d ← d.addToken? number
  match rest with
  | [] => return (d, 1)
  | t :: rest =>
    if t.isFiller then return (d, 1)
    else
      let d ← addNamed? d t
      let (d, n) ← addThird? d divider rest addNamed?
      return (d, n + 2)

/-- An hour, a colon and what stands behind it. -/
def clock? (d : Draft) (hour : List Char) (minute : Token) (rest : List Token) :
    Option (Draft × Nat) :=
  match minute with
  | .number whole fraction =>
    let d := withMinute { d with hour := some (Text.digitsValue hour) } whole fraction
    match rest with
    | .mark ':' :: .number whole fraction :: _ => some (withSecond d whole fraction, 4)
    | .mark ':' :: _ :: _ => none
    | _ => some (d, 2)
  | _ => none

/-! ### Numbers without dividers -/

/-- Six digits: a day, if none is known and no fraction follows, or a time of
day. -/
def sixDigits? (d : Draft) (ds : List Char) (fraction : Option (List Char)) :
    Option Draft :=
  let two (i : Nat) := (ds.drop i).take 2
  if d.parts.isEmpty ∧ fraction.isNone then
    some (((d.addPart (Text.digitsValue (two 0))).addPart (Text.digitsValue (two 2))).addPart
      (Text.digitsValue (two 4)))
  else if ds.length = 6 then
    some (withSecond { d with hour := some (Text.digitsValue (two 0)),
                              minute := some (Text.digitsValue (two 2)) } (two 4) fraction)
  else none

/-- Eight digits of a day, and behind them four or six of a time of day. -/
def manyDigits? (d : Draft) (ds : List Char) : Option Draft := do
  let two (i : Nat) := Text.digitsValue ((ds.drop i).take 2)
  let d ← d.addYear? (Text.digitsValue (ds.take 4))
  let d := (d.addPart (two 4)).addPart (two 6)
  if ds.length ≤ 8 then return d
  else if ds.length ≤ 12 then return { d with hour := some (two 8), minute := some (two 10) }
  else return { d with hour := some (two 8), minute := some (two 10), second := some (two 12) }

/-- Two or four digits behind a day: an hour, or an hour and a minute. -/
def hourDigits? (d : Draft) (ds : List Char) (fraction : Option (List Char)) :
    Option Draft :=
  if fraction.isSome then none
  else
    let d := { d with hour := some (Text.digitsValue (ds.take 2)) }
    if ds.length = 4 then some { d with minute := some (Text.digitsValue (ds.drop 2)) }
    else some d

/-- A number by what stands behind it. -/
def beside? (d : Draft) (ds : List Char) (fraction : Option (List Char))
    (rest : List Token) : Option (Draft × Nat) :=
  let value := Text.digitsValue ds
  let hasFraction := (sixtieths? fraction).isSome
  match rest with
  | [] => consuming (d.addValue? value hasFraction) 0
  | t :: rest =>
    if t.isFiller then
      match rest.head?.bind half? with
      | some half => some ({ d with hour := some (hourOfHalf value half) }, 2)
      | none => consuming (d.addValue? value hasFraction) 1
    else
      match t.half? with
      | some half =>
        if value < 24 then some ({ d with hour := some (hourOfHalf value half) }, 1)
        else if d.couldBeDay value hasFraction then consuming (d.addValue? value hasFraction) 0
        else none
      | none =>
        if d.couldBeDay value hasFraction then consuming (d.addValue? value hasFraction) 0
        else none

/-- A number that is not told by its length. -/
def placed? (before : List Token) (d : Draft) (ds : List Char)
    (fraction : Option (List Char)) (rest : List Token) : Option (Draft × Nat) :=
  match unitOf? before rest with
  | some (unit, n) => some (withUnit d ds fraction unit, n)
  | none =>
    match rest with
    | .mark ':' :: minute :: rest => clock? d ds minute rest
    | .mark '-' :: rest => divided? d (.number ds fraction) '-' rest
    | .mark '/' :: rest => divided? d (.number ds fraction) '/' rest
    | .mark '.' :: rest => divided? d (.number ds fraction) '.' rest
    | _ => beside? d ds fraction rest

/-- A number. -/
def afterNumber? (before : List Token) (d : Draft) (ds : List Char)
    (fraction : Option (List Char)) (rest : List Token) : Option (Draft × Nat) :=
  let length := ds.length + (fraction.map fun f => f.length + 1).getD 0
  if d.parts.length = 3 ∧ (length = 2 ∨ length = 4) ∧ d.hour = none ∧ !isClockNext rest then
    consuming (hourDigits? d ds fraction) 0
  else if length = 6 ∨ (ds.length = 6 ∧ fraction.isSome) then
    consuming (sixDigits? d ds fraction) 0
  else if length = 8 ∨ length = 12 ∨ length = 14 then
    if fraction.isSome then none else consuming (manyDigits? d ds) 0
  else placed? before d ds fraction rest

/-! ### Words and marks -/

/-- The name of a month and what stands behind it. -/
def afterMonth? (d : Draft) (month : Nat) (rest : List Token) : Option (Draft × Nat) := do
  let d ← d.addMonth? month
  let divided (divider : Char) (rest : List Token) : Option (Draft × Nat) := do
    let d ← d.addToken? (← rest.head?)
    let (d, n) ← addThird? d divider (rest.drop 1) Draft.addToken?
    return (d, n + 2)
  match rest with
  | .mark '-' :: rest => divided '-' rest
  | .mark '/' :: rest => divided '/' rest
  | .mark ' ' :: tie :: .mark ' ' :: t :: _ =>
    if tie.isOf then
      match t with
      | .number ds none => consuming (d.addYear? (fullYear (Text.digitsValue ds))) 4
      | _ => return (d, 4)
    else return (d, 0)
  | _ => return (d, 0)

/-- A half of the day, behind an hour up to twelve. -/
def afterHalf? (d : Draft) (half : Half) : Option Draft := do
  let hour ← d.hour
  guard (hour ≤ 12)
  return { d with hour := some (hourOfHalf hour half) }

/-- Can the letters name the time zone of the draft? -/
def takesZone (d : Draft) (letters : List Char) : Bool :=
  d.hour.isSome && d.zone.isNone && isZoneName letters

/-- The hours and minutes of an offset, in seconds, and how many tokens they
take. -/
def offsetSeconds? (rest : List Token) : Option (Nat × Nat) :=
  match rest with
  | .number ds none :: rest =>
    if ds.length = 4 then
      some (3600 * Text.digitsValue (ds.take 2) + 60 * Text.digitsValue (ds.drop 2), 1)
    else
      match rest with
      | .mark ':' :: rest =>
        match rest.head? with
        | some (.number minutes none) =>
          some (3600 * Text.digitsValue ds + 60 * Text.digitsValue minutes, 3)
        | _ => none
      | _ => if ds.length ≤ 2 then some (3600 * Text.digitsValue ds, 1) else none
  | _ => none

/-- The name of the time zone in parentheses behind an offset. -/
def zoneBehind? (d : Draft) (rest : List Token) : Option (List Char) :=
  match rest with
  | filler :: .mark '(' :: .word letters :: .mark ')' :: _ =>
    if filler.isFiller ∧ 3 ≤ letters.length ∧ takesZone d letters then some letters else none
  | _ => none

/-- The offset behind a sign. -/
def afterSign? (d : Draft) (isNegative : Bool) (rest : List Token) : Option (Draft × Nat) := do
  let (seconds, n) ← offsetSeconds? rest
  let d := { d with offset := some (if isNegative then -(seconds : Int) else seconds) }
  match zoneBehind? d (rest.drop n) with
  | some letters => return ({ d with zone := some letters }, n + 4)
  | none => return (d, n)

/-- The name of a time zone.  In front of a sign it says how far UTC is ahead of
the time of day, so the sign is turned around; a name of UTC is then no name. -/
def afterZone? (d : Draft) (letters : List Char) (rest : List Token) : Option (Draft × Nat) :=
  let named (isAhead : Bool) (rest : List Token) : Option (Draft × Nat) :=
    let zone := if isUniversal letters then none else some letters
    (afterSign? { d with zone, offset := none } isAhead rest).map fun (d, n) => (d, n + 1)
  match rest with
  | .mark '+' :: rest => named true rest
  | .mark '-' :: rest => named false rest
  | _ => some ({ d with zone := some letters,
                        offset := if isUniversal letters then some 0 else none }, 0)

/-- A word that is neither a weekday, a month nor a half of the day. -/
def afterWord? (d : Draft) (t : Token) (rest : List Token) : Option (Draft × Nat) :=
  match t with
  | .word letters =>
    if takesZone d letters ∧ d.offset = none then afterZone? d letters rest
    else if t.isFiller then some (d, 0)
    else none
  | .mark c =>
    if d.hour.isSome ∧ (c = '+' ∨ c = '-') then afterSign? d (c = '-') rest
    else if t.isFiller then some (d, 0)
    else none
  | .number _ _ => none

/-! ### Phrases -/

/-- What a token adds to the draft, between the tokens before it, the nearest
first, and those behind it; and how many of these are used up. -/
def step (before : List Token) (t : Token) (rest : List Token) (d : Draft) :
    Option (Draft × Nat) :=
  match t with
  | .number ds fraction => afterNumber? before d ds fraction rest
  | t =>
    if t.isWeekday then some (d, 0)
    else
      match t.month?, t.half? with
      | some m, _ => afterMonth? d m rest
      | none, some half => consuming (afterHalf? d half) 0
      | none, none => afterWord? d t rest

/-- The draft that the tokens come to, after `skipped` of them. -/
def read (before : List Token) (skipped : Nat) (tokens : List Token) (d : Draft) :
    Option Draft :=
  match tokens, skipped with
  | [], _ => some d
  | t :: rest, n + 1 => read (t :: before) n rest d
  | t :: rest, 0 =>
    match step before t rest d with
    | some (d, n) => read (t :: before) n rest d
    | none => none

theorem read_cons (before rest : List Token) (t : Token) (d : Draft) :
    read before 0 (t :: rest) d
      = (step before t rest d).bind fun r => read (t :: before) r.2 rest r.1 := by
  simp only [read]
  cases step before t rest d <;> rfl

/-- The moment that a text names, where `standIn` fills in for what it does not
say of the date. -/
def moment? (standIn : Date) (cs : List Char) : Option Moment := do
  let d ← read [] 0 (Token.ofText cs) {}
  d.moment? standIn

end Gridbook.Calendar.Phrase
