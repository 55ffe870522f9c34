/-
Gridbook/Number.lean

Numbers as fields hold them: whole numbers of any size, words of 64 bits, and
doubles.  Sums, differences and products of whole numbers are exact, and those
of words wrap around; a whole number beside a word becomes a word.  A quotient
of two whole numbers is the nearest double, one of words is the quotient of
their nearest doubles, and with a double on one side the other side is converted
first.  `none` means that a value lies beyond the numbers at hand.

`Number.place` puts every number on one line, so that comparison is by exact
value whatever the two representations are.
-/
import Gridbook.Real.Ratio
import Gridbook.Power

namespace Gridbook

/-- A whole number of any size, a word, or a double. -/
inductive Number where
  | whole (n : Int)
  /-- A whole number whose arithmetic wraps around at 64 bits. -/
  | word (w : Int64)
  | real (x : Float)
deriving Repr

/-- The whole numbers of 64 bits. -/
def fitsWord (n : Int) : Bool :=
  -(twoTo 63 : Int) ≤ n && n < twoTo 63

theorem fitsWord_iff {n : Int} :
    fitsWord n = true ↔ -0x8000000000000000 ≤ n ∧ n < 0x8000000000000000 := by
  rw [fitsWord, Bool.and_eq_true, decide_eq_true_iff, decide_eq_true_iff]
  exact Iff.rfl

namespace Number

/-! ### Conversions -/

/-- The nearest double. -/
def toReal? : Number → Option Float
  | whole n => Real.ofInt? n
  | word w => Real.ofInt? w.toInt
  | real x => some x

/-- The word of a whole number, if it has one. -/
def toWord? : Number → Option Int64
  | whole n => if fitsWord n then some (Int64.ofInt n) else none
  | word w => some w
  | real _ => none

def isReal : Number → Bool
  | real _ => true
  | _ => false

/-! ### Arithmetic -/

/-- Apply `onReals` to both numbers as doubles. -/
def viaReals? (onReals : Float → Float → Float) (a b : Number) : Option Number := do
  let x ← a.toReal?
  let y ← b.toReal?
  return real (onReals x y)

/-- Apply `onWords` to both numbers as words. -/
def viaWords? (onWords : Int64 → Int64 → Int64) (a b : Number) : Option Number := do
  let v ← a.toWord?
  let w ← b.toWord?
  return word (onWords v w)

/-- An operation by what it does with whole numbers, words and doubles. -/
def combine? (onWholes : Int → Int → Int) (onWords : Int64 → Int64 → Int64)
    (onReals : Float → Float → Float) : Number → Number → Option Number
  | whole m, whole n => some (whole (onWholes m n))
  | a, b => if a.isReal || b.isReal then viaReals? onReals a b else viaWords? onWords a b

def neg : Number → Number
  | whole n => whole (-n)
  | word w => word (-w)
  | real x => real (-x)

def add? : Number → Number → Option Number :=
  combine? (· + ·) (· + ·) (· + ·)

def sub? : Number → Number → Option Number :=
  combine? (· - ·) (· - ·) (· - ·)

def mul? : Number → Number → Option Number :=
  combine? (· * ·) (· * ·) (· * ·)

/-- The quotient, for a divisor other than zero. -/
def div? : Number → Number → Option Number
  | whole m, whole n => (Real.quotient? m n).map real
  | a, b =>
    if a.isReal || b.isReal || (a.toWord?.isSome && b.toWord?.isSome) then viaReals? (· / ·) a b
    else none

/-- Is the number zero, of either sign? -/
def isZero : Number → Bool
  | whole n => n == 0
  | word w => w == 0
  | real x => x == 0

def isNan : Number → Bool
  | real x => x.isNaN
  | _ => false

/-! ### Exact order -/

/-- The place of a number on the line: first the side (minus infinity, finite,
infinity, and not-a-number after all others), then the value in units of the
smallest positive double. -/
def place : Number → Int × Int
  | whole n => (0, n * Real.unitsPerOne)
  | word w => (0, w.toInt * Real.unitsPerOne)
  | real x =>
    match Real.parts x with
    | .infinite true => (-1, 0)
    | .infinite false => (1, 0)
    | .nan => (2, 0)
    | p => (0, p.height)

/-- Comparison by exact value. -/
def compare (a b : Number) : Ordering :=
  (Ord.compare a.place.1 b.place.1).then (Ord.compare a.place.2 b.place.2)

end Number

end Gridbook
