/-
Gridbook/Real/Ratio.lean

The double nearest to a quotient of naturals.  `ofRatio?` rounds `num / den`
to the nearest double, a tie to the even one, and gives `none` if the rounded
value lies beyond the largest finite double.

The quotient is taken in units of `2^-1074`.  With `s` chosen so that at most
53 bits are left of `num / (den · 2^s)` units, the rounded quotient `r` and `s`
already spell the bits of the result, `s · 2^52 + r`: below `2^52` the number is
subnormal and `s = 0`, above it the leading bit of `r` adds one to the exponent
field, and a carry out of the fraction does so once more.

Main statement: `roundHalfEven` is within half a unit of the quotient
(`two_mul_roundHalfEven_le`, `le_two_mul_roundHalfEven`).
-/
import Gridbook.Real.Parts

namespace Gridbook.Real

/-! ### Rounding a quotient -/

/-- `n / d` rounded to the nearest natural, a tie to the even one. -/
def roundHalfEven (n d : Nat) : Nat :=
  let q := n / d
  let r := n % d
  if 2 * r < d then q
  else if d < 2 * r then q + 1
  else if q % 2 = 0 then q
  else q + 1

theorem two_mul_roundHalfEven_le {n d : Nat} (hd : 0 < d) :
    2 * (roundHalfEven n d * d) ≤ 2 * n + d := by
  have hm := Nat.div_add_mod n d
  have hc : n / d * d = d * (n / d) := Nat.mul_comm ..
  unfold roundHalfEven
  dsimp only
  split
  · omega
  · split
    · rw [Nat.add_mul, Nat.one_mul]; omega
    · split
      · omega
      · rw [Nat.add_mul, Nat.one_mul]; omega

theorem le_two_mul_roundHalfEven {n d : Nat} (hd : 0 < d) :
    2 * n ≤ 2 * (roundHalfEven n d * d) + d := by
  have hm := Nat.div_add_mod n d
  have hl := Nat.mod_lt n hd
  have hc : n / d * d = d * (n / d) := Nat.mul_comm ..
  unfold roundHalfEven
  dsimp only
  split
  · omega
  · split
    · rw [Nat.add_mul, Nat.one_mul]; omega
    · split
      · omega
      · rw [Nat.add_mul, Nat.one_mul]; omega

/-! ### Nearest doubles -/

/-- The bits of the double nearest to `num / den`, sign bit apart. -/
def nearestBits (num den : Nat) : Nat :=
  let units := num * unitsPerOne
  let s := (units / den).log2 - 52
  s * twoTo 52 + roundHalfEven units (den * twoTo s)

/-- The bits of infinity, sign bit apart. -/
def infinityBits : Nat := 2047 * twoTo 52

/-- The double nearest to `num / den`, negated if `negative`; `none` beyond the
finite doubles. -/
def ofRatio? (negative : Bool) (num den : Nat) : Option Float :=
  let bits := nearestBits num den
  if bits < infinityBits then
    some (Float.ofBits (UInt64.ofNat (bits + if negative then twoTo 63 else 0)))
  else none

/-- The double nearest to `num / den`, negated if `negative`; an infinity beyond the finite
doubles. -/
def closest (negative : Bool) (num den : Nat) : Float :=
  (ofRatio? negative num den).getD (if negative then -1 / 0 else 1 / 0)

/-- The double nearest to an integer. -/
def ofInt? (n : Int) : Option Float :=
  ofRatio? (n < 0) n.natAbs 1

/-- The quotient of two integers rounded to the nearest double; the sign of a
zero quotient is that of the quotient of the signs. -/
def quotient? (a b : Int) : Option Float :=
  ofRatio? (decide (a < 0) != decide (b < 0)) a.natAbs b.natAbs

end Gridbook.Real
