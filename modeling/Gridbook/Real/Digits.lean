/-
Gridbook/Real/Digits.lean

Decimal digits of a double.  `shortest` gives the fewest digits that read back
as the double, and of those the ones nearest to it.

For `shortest`, take the reals that round to the double: an interval whose ends
belong to it iff the significand is even.  If a point of the grid of `n`-digit
decimals lies in the interval, so does one of the double's two neighbours on
that grid, so testing the two for `n = 1, 2, …` finds the least `n`.  All is
done in naturals: quarters of `2^s` units against powers of ten.
-/
import Gridbook.Decimal.Layout
import Gridbook.Real.Ratio

namespace Gridbook.Real

/-- The number of decimal digits before the point of `num / den`; for a
quotient below one, minus the number of zeros after the point. -/
def digitsBeforePoint (num den : Nat) : Int :=
  if den ≤ num then (Nat.toDigits 10 (num / den)).length
  else 1 - (Nat.toDigits 10 (den / num)).length

/-- The reals that round to a double, and the double itself, over `den`. -/
structure Rounding where
  low : Nat
  value : Nat
  high : Nat
  den : Nat
  closed : Bool

/-- The reals that round to `m · 2^s` units. -/
def Rounding.ofParts (m s : Nat) : Rounding :=
  -- below a power of two the next double is half as far away
  let down := if m = twoTo 52 ∧ 0 < s then 1 else 2
  { low := (4 * m - down) * twoTo s
    value := 4 * m * twoTo s
    high := (4 * m + 2) * twoTo s
    den := 4 * unitsPerOne
    closed := m % 2 = 0 }

/-- Does the quotient round to the double? -/
def Rounding.admits (r : Rounding) (num den : Nat) : Bool :=
  if r.closed then r.low * den ≤ num * r.den && num * r.den ≤ r.high * den
  else r.low * den < num * r.den && num * r.den < r.high * den

/-- The `n`-digit decimal of the interval that is nearest to the double, a tie
going to the even one. -/
def Rounding.withDigits? (r : Rounding) (n : Nat) : Option Decimal :=
  let e := digitsBeforePoint r.value r.den - n
  -- the grid point `c · 10^e` is `c * step / scale` in units of `1 / den`
  let step := tenTo e.toNat * r.den
  let scale := tenTo (-e).toNat
  let within (c : Nat) : Bool := r.admits (c * tenTo e.toNat) scale
  let below := r.value * scale / step
  let above := below + 1
  if within below && within above then
    let c := roundHalfEven (r.value * scale) step
    some ⟨c, e⟩
  else if within below then some ⟨below, e⟩
  else if within above then some ⟨above, e⟩
  else none

/-- The fewest digits that read back, for a finite double without its sign. -/
def shortest (m s : Nat) : Decimal :=
  if m = 0 then ⟨0, 0⟩
  else
    let r := Rounding.ofParts m s
    ((List.range 17).findSome? fun n => r.withDigits? (n + 1)).getD ⟨0, 0⟩

end Gridbook.Real
