/-
Gridbook/Real/Parts.lean

The exact value of a double.  `parts` reads a double off its bits: not a
number, an infinity, or a sign with two naturals `m` and `s` that stand for
`m · 2^s` units, where a unit is `2^-1074`, the smallest positive double.

`height` is the value in units, an integer; two finite doubles are equal
numbers exactly when their heights are.
-/
import Gridbook.Power
namespace Gridbook.Real

/-- What a double stands for. -/
inductive Parts where
  | nan
  | infinite (negative : Bool)
  /-- `m · 2^s` units of `2^-1074`, negated if `negative`. -/
  | finite (negative : Bool) (m s : Nat)
deriving Repr, DecidableEq

/-- How many units of the smallest positive double make one. -/
def unitsPerOne : Nat := twoTo 1074

/-- Read sign, exponent field and fraction off the bits. -/
def parts (x : Float) : Parts :=
  let bits := x.toBits.toNat
  let negative := decide (twoTo 63 ≤ bits)
  let field := bits / twoTo 52 % twoTo 11
  let fraction := bits % twoTo 52
  if field = 2047 then
    if fraction = 0 then .infinite negative else .nan
  else if field = 0 then .finite negative fraction 0
  else .finite negative (fraction + twoTo 52) (field - 1)

/-- Is `x` a number other than the infinities? -/
def isFinite (x : Float) : Bool :=
  match parts x with
  | .finite .. => true
  | _ => false

/-- The value in units, for a finite double. -/
def Parts.height : Parts → Int
  | .finite false m s => (m * twoTo s : Nat)
  | .finite true m s => -(m * twoTo s : Nat)
  | _ => 0

end Gridbook.Real
