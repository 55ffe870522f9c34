/-
Gridbook/Decimal/Layout.lean

How a decimal is written.  A decimal is a natural number of digits times a
power of ten.  A `Layout` says which decimal exponents are written
positionally and whether the exponent form always has a fraction; `render`
writes the decimal, without the zeros that end its digits.
-/
namespace Gridbook

/-- The number `digits · 10^exponent`. -/
structure Decimal where
  digits : Nat
  exponent : Int
deriving Repr, DecidableEq

namespace Decimal

/-- The conventions of a written form. -/
structure Layout where
  /-- The smallest decimal exponent that is written positionally. -/
  low : Int
  /-- The smallest decimal exponent above `low` that is not. -/
  high : Int
  /-- Does the exponent form always write a fraction? -/
  fraction : Bool

/-- Drop the zeros that end a run of digits, down to one digit. -/
def significant (ds : List Char) : List Char :=
  match (ds.reverse.dropWhile (· == '0')).reverse with
  | [] => ['0']
  | kept => kept

/-- The part after the point: at least one digit. -/
def fractionOf : List Char → List Char
  | [] => ['0']
  | ds => ds

/-- Digits `ds` with the point after digit number `e + 1`, padded with zeros. -/
def positional (ds : List Char) (e : Int) : List Char :=
  if e < 0 then
    '0' :: '.' :: (List.replicate (-e - 1).toNat '0' ++ ds)
  else
    let n := e.toNat + 1
    (ds.take n ++ List.replicate (n - ds.length) '0') ++ '.' :: fractionOf (ds.drop n)

/-- A sign and at least two digits. -/
def exponentText (e : Int) : List Char :=
  let ds := Nat.toDigits 10 e.natAbs
  (if e < 0 then '-' else '+') :: (List.replicate (2 - ds.length) '0' ++ ds)

/-- Digits `ds` with the point after the first one, and the exponent `e`. -/
def scientific (fraction : Bool) (ds : List Char) (e : Int) : List Char :=
  let tail :=
    match ds.drop 1 with
    | [] => if fraction then ['.', '0'] else []
    | rest => '.' :: rest
  ds.take 1 ++ tail ++ 'e' :: exponentText e

/-- The decimal as `layout` writes it. -/
def render (layout : Layout) (d : Decimal) : List Char :=
  let all := Nat.toDigits 10 d.digits
  let ds := significant all
  let e : Int := if d.digits = 0 then 0 else all.length - 1 + d.exponent
  if layout.low ≤ e ∧ e < layout.high then positional ds e
  else scientific layout.fraction ds e

end Decimal

end Gridbook
