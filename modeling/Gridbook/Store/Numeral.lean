/-
Gridbook/Store/Numeral.lean

How the store reads texts as doubles and writes doubles as texts.  Both go through
numbers with a significand of 64 bits, so a decimal may read as a neighbour of
the nearest double, and the last of the fifteen written digits may be off where
the digits after it are close to a half.
-/
import Gridbook.Number.Literal
import Gridbook.Real.Extended
import Gridbook.Real.Text
import Gridbook.Text.Blank
import Gridbook.Power

namespace Gridbook.Numeral

/-! ### Reading -/

/-- A whole number in a word, and the power of ten that it is scaled by. -/
structure Significand where
  digits : Nat
  scale : Int

/-- From here on a further digit would not fit a word. -/
def fullWord : Nat := (twoTo 63 - 10) / 10

/-- Take a digit before the point; in a full word it only counts. -/
def Significand.wholeDigit (s : Significand) (c : Char) : Significand :=
  if s.digits < fullWord then { s with digits := 10 * s.digits + Text.digitValue c }
  else { s with scale := s.scale + 1 }

/-- Take a digit after the point; in a full word it is dropped. -/
def Significand.fractionDigit (s : Significand) (c : Char) : Significand :=
  if s.digits < fullWord then ⟨10 * s.digits + Text.digitValue c, s.scale - 1⟩ else s

/-- The digits of a literal. -/
def Significand.ofLiteral (l : Literal) : Significand :=
  l.fraction.foldl Significand.fractionDigit (l.whole.foldl Significand.wholeDigit ⟨0, 0⟩)

/-- The largest exponent that is told apart. -/
def largestExponent : Nat := 10000

/-- The exponent of a literal. -/
def exponentOf (l : Literal) : Int :=
  match l.exponent with
  | none => 0
  | some e =>
    let n := e.digits.foldl
      (fun n c => if n < largestExponent then 10 * n + Text.digitValue c else largestExponent)
      0
    if e.sign = ['-'] then -n else n

/-- Tens of a power moved into the digits, as long as the word holds them; what
is left of the power. -/
def absorbTens (digits : Nat) : Nat → Nat × Nat
  | 0 => (digits, 0)
  | e + 1 => if (twoTo 63 - 1) / 10 ≤ digits then (digits, e + 1) else absorbTens (10 * digits) e

/-- Zeros at the end of the digits taken off for a power below; what is left of
the power. -/
def shedTens (digits : Nat) : Nat → Nat × Nat
  | 0 => (digits, 0)
  | e + 1 => if digits % 10 = 0 then shedTens (digits / 10) e else (digits, e + 1)

/-- `digits · 10^e`. -/
def scaledUp (negative : Bool) (digits e : Nat) : Float :=
  let s := Real.Extended.ofNat digits
  if e ≤ 307 then (s.mul (Real.Extended.powerOfTen e)).toReal negative
  else if e < 342 then (s.mul (Real.Extended.powerOfTen (e - 308))).toReal negative * 1e308
  else if negative then -1 / 0 else 1 / 0

/-- `digits · 10^-e`. -/
def scaledDown (negative : Bool) (digits e : Nat) : Float :=
  let s := Real.Extended.ofNat digits
  if e ≤ 307 then (s.div (Real.Extended.powerOfTen e)).toReal negative
  else if e < 342 then (s.div (Real.Extended.powerOfTen (e - 308))).toReal negative / 1e308
  else if negative then -0.0 else 0.0

/-- The double that a literal reads as. -/
def value (negative : Bool) (l : Literal) : Float :=
  let s := Significand.ofLiteral l
  let e := exponentOf l + s.scale
  if s.digits = 0 then (if negative then -0.0 else 0.0)
  else if e < 0 then
    let (digits, e) := shedTens s.digits e.natAbs
    scaledDown negative digits e
  else
    let (digits, e) := absorbTens s.digits e.natAbs
    scaledUp negative digits e

/-- The double that a text starts with, and what follows. -/
def scan? (cs : List Char) : Option (Float × List Char) :=
  let (sign, body) := Literal.splitSign cs
  (Literal.scan Char.isDigit body).map fun r => (value (decide (sign = ['-'])) r.1, r.2)

/-- The double that a text starts with, after blanks; zero if there is none. -/
def leading (cs : List Char) : Float :=
  ((scan? (cs.dropWhile Text.isAsciiBlank)).map (·.1)).getD 0

/-- The double that a text is, between blanks. -/
def whole? (cs : List Char) : Option Float := do
  let (x, rest) ← scan? (cs.dropWhile Text.isAsciiBlank)
  if rest.all Text.isAsciiBlank then some x else none

/-! ### Writing -/

/-- The constants of the scaling, as the nearest doubles. -/
def scales : List (Real.Extended × Int) :=
  [(.ofReal 1e100, 100), (.ofReal 1e10, 10), (.ofReal 10, 1)]

/-- Multiply a scale by `step` as long as the product does not exceed `x`. -/
def scaleBy (x step : Real.Extended) (power : Int) :
    Nat → Real.Extended × Int → Real.Extended × Int
  | 0, r => r
  | fuel + 1, (scale, e) =>
    if x.before (step.mul scale) || 350 < e then (scale, e)
    else scaleBy x step power fuel (scale.mul step, e + power)

/-- Multiply `x` by `step` as long as it is less than `bound`. -/
def liftBy (step bound : Real.Extended) (power : Int) :
    Nat → Real.Extended × Int → Real.Extended × Int
  | 0, r => r
  | fuel + 1, (x, e) =>
    if x.before bound then liftBy step bound power fuel (x.mul step, e - power) else (x, e)

/-- A positive number brought between one and ten, and the power of ten. -/
def normalized (x : Real.Extended) : Real.Extended × Int :=
  let (scale, e) := scales.foldl (fun r step => scaleBy x step.1 step.2 40 r)
    (Real.Extended.ofNat 1, 0)
  let small := liftBy (.ofReal 1e8) (.ofReal 1e-8) 8 50 (x.div scale, e)
  liftBy (.ofNat 10) (.ofNat 1) 1 10 small

/-- Half a unit of the last of fifteen digits. -/
def halfUnit : Real.Extended :=
  .ofReal (5.0e-05 * 1.0e-10)

/-- Take the digit before the point off, and move the point. -/
def takeDigit (r : Nat × Real.Extended) : Nat × Real.Extended :=
  let d := r.2.floor
  (10 * r.1 + d, (r.2.sub (.ofNat d)).mul (.ofNat 10))

/-- The fifteen digits of a finite double without its sign. -/
def fifteen (m s : Nat) : Decimal :=
  if m = 0 then ⟨0, 0⟩
  else
    let (x, e) := normalized ⟨m, (s : Int) - 1074⟩
    let x := x.add halfUnit
    let (x, e) := if x.before (.ofNat 10) then (x, e) else (x.mul (.ofReal 0.1), e + 1)
    let (digits, _) := (List.range 15).foldl (fun r _ => takeDigit r) (0, x)
    ⟨digits, e - 14⟩

/-- Positional from `10^-4` up to `10^15`, and a fraction always. -/
def layout : Decimal.Layout := ⟨-4, 15, true⟩

/-- The text of a double; a zero has no sign. -/
def text (x : Float) : List Char :=
  Real.textWith ⟨"", "Inf"⟩ layout fifteen (if x == 0 then 0 else x)

end Gridbook.Numeral
