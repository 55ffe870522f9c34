/-
Gridbook/Real/Extended.lean

Numbers with a significand of 64 bits, without sign: `m · 2^e`.  Every operation
gives the number of that kind that is nearest to the exact result, a tie going
to the even one.  Such numbers stand between a decimal and a double where the
last rounding but one is done in them.
-/
import Gridbook.Real.Ratio

namespace Gridbook.Real

/-- The number `m · 2^e`. -/
structure Extended where
  m : Nat
  e : Int
deriving Repr, DecidableEq

namespace Extended

/-- The bits of a significand. -/
def width : Int := 64

/-- `n · 2^k` for a power that is not negative. -/
def scaled (n : Nat) (k : Int) : Nat :=
  n * twoTo k.toNat

/-- The position of the leading bit of `num / den`. -/
def leadingBit (num den : Nat) : Int :=
  let k : Int := (num.log2 : Int) - den.log2
  if scaled den k ≤ scaled num (-k) then k else k - 1

/-- The nearest number to `num / den · 2^e`. -/
def nearest (num den : Nat) (e : Int) : Extended :=
  if num = 0 then ⟨0, 0⟩
  else
    let k := leadingBit num den - (width - 1)
    ⟨roundHalfEven (scaled num (-k)) (scaled den k), k + e⟩

/-- A natural of at most 64 bits. -/
def ofNat (n : Nat) : Extended :=
  ⟨n, 0⟩

/-- A finite double without its sign. -/
def ofReal (x : Float) : Extended :=
  match parts x with
  | .finite _ m s => ⟨m, (s : Int) - 1074⟩
  | _ => ⟨0, 0⟩

/-! ### Arithmetic -/

def mul (a b : Extended) : Extended :=
  nearest (a.m * b.m) 1 (a.e + b.e)

def div (a b : Extended) : Extended :=
  nearest a.m b.m (a.e - b.e)

/-- The significand of `a` in units of `2^e`. -/
def units (a : Extended) (e : Int) : Nat :=
  scaled a.m (a.e - e)

def add (a b : Extended) : Extended :=
  let e := min a.e b.e
  nearest (a.units e + b.units e) 1 e

/-- The difference, for a minuend that is not the smaller one. -/
def sub (a b : Extended) : Extended :=
  let e := min a.e b.e
  nearest (a.units e - b.units e) 1 e

/-- Is `a` less than `b`? -/
def before (a b : Extended) : Bool :=
  let e := min a.e b.e
  a.units e < b.units e

/-- The greatest natural that is not greater. -/
def floor (a : Extended) : Nat :=
  scaled a.m a.e / twoTo (-a.e).toNat

/-- The nearest double, negated if `negative`; infinity beyond the finite
ones. -/
def toReal (negative : Bool) (a : Extended) : Float :=
  closest negative (scaled a.m a.e) (twoTo (-a.e).toNat)

/-- Ten to the power of the number that the bits spell, the lowest first, by
repeated squaring of `square`. -/
def powerFrom (square result : Extended) : List Bool → Extended
  | [] => result
  | bit :: bits => powerFrom (square.mul square) (if bit then result.mul square else result) bits

/-- The bits of a number below `2^n`, the lowest first. -/
def bitsOf (n k : Nat) : List Bool :=
  (List.range n).map k.testBit

/-- Ten to the power of `k`, for `k` below 512. -/
def powerOfTen (k : Nat) : Extended :=
  powerFrom (ofNat 10) (ofNat 1) (bitsOf 9 k)

end Extended

end Gridbook.Real
