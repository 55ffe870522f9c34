/-
Gridbook/Proofs/Real/Decimal.lean

The double of a decimal.  A decimal `m · 10^e` is a product or a quotient of exact numbers,
which is rounded once; where `m` and the power of ten are doubles themselves, it is the
product or the quotient of these, which is rounded once as well.  So its double is the closest
one, and it is finite exactly below the reach of the doubles (`isFinite_closest`,
`closest_of_reach`).

Main statements: `ofScientific_eq_closest`, and of a literal behind a sign
`Literal.signed_eq_closest`.
-/
import Gridbook.Proofs.Real.Packing
import Gridbook.Proofs.Number.Literal

namespace Gridbook

namespace Real

open Float.Model Float.Model.UnpackedFloat

/-! ### Powers of ten -/

theorem mul_tenTo_zero (n : Nat) : n * tenTo 0 = n :=
  Nat.mul_one n

theorem tenTo_le {m n : Nat} (h : m ≤ n) : tenTo m ≤ tenTo n :=
  Nat.pow_le_pow_right (by decide) h

theorem twoTo_le_tenTo (n : Nat) : twoTo n ≤ tenTo n :=
  Nat.pow_le_pow_left (by decide) n

/-! ### Whole numbers and powers of ten as doubles -/

theorem log2_mul_two_pow {n : Nat} (hn : 0 < n) (j : Nat) : (n * 2 ^ j).log2 = n.log2 + j := by
  refine (Nat.log2_eq_iff (Nat.ne_of_gt (Nat.mul_pos hn (Nat.two_pow_pos j)))).2 ⟨?_, ?_⟩
  · rw [Nat.pow_add]
    exact Nat.mul_le_mul_right _ (Nat.log2_self_le (Nat.ne_of_gt hn))
  · rw [Nat.add_right_comm, Nat.pow_add]
    exact Nat.mul_lt_mul_of_pos_right Nat.lt_log2_self (Nat.two_pow_pos j)

theorem toFloat_eq_closest {n : UInt64} (hn : 0 < n.toNat) :
    n.toFloat = closest false n.toNat 1 := by
  have hpositive : compare (n.toNat : Int) 0 = .gt := Int.compare_eq_gt.2 (by omega)
  have hnormalize : UnpackedFloat.ofUInt64 Format.binary64 n =
      UnpackedFloat.round Format.binary64 .positive n.toNat 0 := by
    unfold UnpackedFloat.ofUInt64 UnpackedFloat.ofNat UnpackedFloat.ofInt UnpackedFloat.normalize
    rw [hpositive]
    rfl
  show Float.ofModel (Float.Model.pack (UnpackedFloat.ofUInt64 Format.binary64 n)) = _
  rw [hnormalize]
  unfold UnpackedFloat.round decreaseExponent
  dsimp only
  rw [targetExponent_eq]
  generalize hj : (0 - keptExponent n.toNat 0).toNat = j
  have hlog : (n.toNat * 2 ^ j).log2 = n.toNat.log2 + j := log2_mul_two_pow hn j
  have hplaced : 0 - (j : Int) ≤ keptExponent (n.toNat * 2 ^ j) (0 - (j : Int)) := by
    unfold keptExponent at hj ⊢
    omega
  rw [Nat.shiftLeft_eq, ofModel_exact hplaced]
  refine closest_congr false (twoTo_pos _) Nat.one_pos ?_
  have hnum : (0 - (j : Int)).toNat = 0 := by omega
  have hden : (-(0 - (j : Int))).toNat = j := by omega
  rw [hnum, hden]
  show n.toNat * twoTo j * 1 * 1 = n.toNat * twoTo j
  rw [Nat.mul_one, Nat.mul_one]

/-- A whole number below `2^53` is its double, which has 53 bits. -/
theorem parts_closest_whole {n : Nat} (hpos : 0 < n) (hn : n < twoTo 53) :
    ∃ m s, parts (closest false n 1) = .finite false m s ∧ 0 < m ∧ twoTo 52 ≤ m ∧
      m * twoTo s = n * unitsPerOne := by
  have hlast : infinityBits = 2047 * twoTo 52 := rfl
  have hunits : unitsPerOne = twoTo 1074 := rfl
  obtain ⟨m, s, hm, hlead, hs, hvalue, hbits⟩ := exists_digits hn
  have hscaled : 0 < s := by
    by_contra hzero
    have hs0 : s = 0 := by omega
    have hlow : twoTo 53 ≤ n * unitsPerOne := by
      rw [hunits]
      exact Nat.le_trans (twoTo_le (by omega)) (Nat.le_mul_of_pos_left _ hpos)
    rw [← hvalue, hs0] at hlow
    exact absurd hlow (Nat.not_le.2 (by rwa [show twoTo 0 = 1 from rfl, Nat.mul_one]))
  have hfirst := hlead hscaled
  have hlt : s * twoTo 52 + m < infinityBits := by
    have hscale : s * twoTo 52 ≤ 1074 * twoTo 52 := Nat.mul_le_mul_right _ hs
    rw [twoTo_53] at hm
    omega
  refine ⟨m, s, ?_, Nat.lt_of_lt_of_le (twoTo_pos 52) hfirst, hfirst, hvalue⟩
  rw [closest_eq, hbits]
  unfold ofNearest
  rw [if_pos hlt]
  exact parts_ofBits hm hlead (by omega)

/-- Is this a positive number of that many units, with 53 bits to its digits? -/
def Parts.isNormal (units : Nat) : Parts → Bool
  | .finite false m s => decide (twoTo 52 ≤ m ∧ m * twoTo s = units)
  | _ => false

theorem Parts.exists_of_isNormal {units : Nat} {p : Parts} (h : p.isNormal units) :
    ∃ m s, p = .finite false m s ∧ twoTo 52 ≤ m ∧ m * twoTo s = units := by
  unfold isNormal at h
  split at h
  · exact ⟨_, _, rfl, of_decide_eq_true h⟩
  · cases h

/-- The powers of ten that are doubles. -/
theorem parts_power (i : Fin 23) :
    ∃ m s, parts Float.exactlyRepresentablePowersOfTen[i] = .finite false m s ∧ 0 < m ∧
      twoTo 52 ≤ m ∧ m * twoTo s = tenTo i * unitsPerOne := by
  have hall : ∀ i : Fin 23, (parts Float.exactlyRepresentablePowersOfTen[i]).isNormal
      (tenTo i * unitsPerOne) := by decide +kernel
  obtain ⟨m, s, hparts, hlead, hvalue⟩ := Parts.exists_of_isNormal (hall i)
  exact ⟨m, s, hparts, Nat.lt_of_lt_of_le (twoTo_pos 52) hlead, hlead, hvalue⟩

/-- A product of two numbers of 53 bits has bits enough. -/
theorem keptExponent_mul {k l : Nat} (hk : twoTo 52 ≤ k) (hl : twoTo 52 ≤ l) (e : Int) :
    e ≤ keptExponent (k * l) e := by
  have hle : 2 ^ 104 ≤ k * l := by
    calc 2 ^ 104 = twoTo 52 * twoTo 52 := (twoTo_add 52 52)
      _ ≤ k * l := Nat.mul_le_mul hk hl
  have hlog := (Nat.le_log2 (by omega)).2 hle
  unfold keptExponent
  omega

/-! ### Products and quotients of doubles -/

section

variable {x y : Float} {m n : Nat} {k l s t : Nat}

/-- The product of two doubles that are whole numbers. -/
theorem mul_eq_closest (hx : parts x = .finite false k s) (hy : parts y = .finite false l t)
    (hk : twoTo 52 ≤ k) (hl : twoTo 52 ≤ l) (hm : k * twoTo s = m * unitsPerOne)
    (hn : l * twoTo t = n * unitsPerOne) : x * y = closest false (m * n) 1 := by
  have hunits : unitsPerOne = twoTo 1074 := rfl
  have hx' := unpack_of_parts_pos hx (Nat.lt_of_lt_of_le (twoTo_pos 52) hk)
  have hy' := unpack_of_parts_pos hy (Nat.lt_of_lt_of_le (twoTo_pos 52) hl)
  show Float.ofModel (Float.Model.pack (UnpackedFloat.mul Format.binary64 x.toModel.unpack
    y.toModel.unpack)) = _
  rw [hx', hy']
  refine (ofModel_mul (keptExponent_mul hk hl _)).trans ?_
  refine closest_congr false (twoTo_pos _) Nat.one_pos ?_
  generalize hA : ((s : Int) - 1074 + ((t : Int) - 1074)).toNat = a
  generalize hB : (-((s : Int) - 1074 + ((t : Int) - 1074))).toNat = b
  have hexponent : a + 1074 + 1074 = s + t + b := by omega
  refine Nat.eq_of_mul_eq_mul_right (Nat.mul_pos (twoTo_pos 1074) (twoTo_pos 1074)) ?_
  calc k * l * twoTo a * 1 * (twoTo 1074 * twoTo 1074)
      = k * l * twoTo (a + 1074 + 1074) := by
        rw [twoTo_add (a + 1074) 1074, twoTo_add a 1074]
        ring
    _ = k * twoTo s * (l * twoTo t) * twoTo b := by
        rw [hexponent, twoTo_add (s + t) b, twoTo_add s t]
        ring
    _ = m * n * twoTo b * (twoTo 1074 * twoTo 1074) := by
        rw [hm, hn, hunits]
        ring

/-- The quotient of two doubles that are whole numbers. -/
theorem div_eq_closest (hx : parts x = .finite false k s) (hy : parts y = .finite false l t)
    (hk : 0 < k) (hl : 0 < l) (hm : k * twoTo s = m * unitsPerOne)
    (hn : l * twoTo t = n * unitsPerOne) : x / y = closest false m n := by
  have hunits : unitsPerOne = twoTo 1074 := rfl
  have hpos : 0 < n := by
    refine Nat.pos_of_ne_zero fun hzero => ?_
    rw [hzero, Nat.zero_mul] at hn
    exact Nat.ne_of_gt (Nat.mul_pos hl (twoTo_pos t)) hn
  show Float.ofModel (Float.Model.pack (UnpackedFloat.div Format.binary64 x.toModel.unpack
    y.toModel.unpack)) = _
  rw [unpack_of_parts_pos hx hk, unpack_of_parts_pos hy hl]
  refine ofModel_div.trans ?_
  refine closest_congr false (Nat.mul_pos hl (twoTo_pos _)) hpos ?_
  generalize hA : ((s : Int) - 1074 - ((t : Int) - 1074)).toNat = a
  generalize hB : (-((s : Int) - 1074 - ((t : Int) - 1074))).toNat = b
  have hexponent : a + t = s + b := by omega
  refine Nat.eq_of_mul_eq_mul_right (twoTo_pos 1074) ?_
  calc k * twoTo a * n * twoTo 1074 = k * twoTo a * (n * unitsPerOne) := by
        rw [hunits]
        ring
    _ = k * l * twoTo (a + t) := by
        rw [← hn, twoTo_add a t]
        ring
    _ = k * twoTo s * (l * twoTo b) := by
        rw [hexponent, twoTo_add s b]
        ring
    _ = m * (l * twoTo b) * twoTo 1074 := by
        rw [hm, hunits]
        ring

theorem mul_of_zero {e : Int} {hl : 0 < l} (hx : x.toModel.unpack = .zero .positive)
    (hy : y.toModel.unpack = .finite .positive l e hl) :
    x * y = Float.ofModel (Float.Model.pack (.zero .positive)) := by
  show Float.ofModel (Float.Model.pack (UnpackedFloat.mul Format.binary64 x.toModel.unpack
    y.toModel.unpack)) = _
  rw [hx, hy]
  rfl

theorem div_of_zero {e : Int} {hl : 0 < l} (hx : x.toModel.unpack = .zero .positive)
    (hy : y.toModel.unpack = .finite .positive l e hl) :
    x / y = Float.ofModel (Float.Model.pack (.zero .positive)) := by
  show Float.ofModel (Float.Model.pack (UnpackedFloat.div Format.binary64 x.toModel.unpack
    y.toModel.unpack)) = _
  rw [hx, hy]
  rfl

/-- A quotient below half a unit is closest to zero. -/
theorem closest_of_small {m n : Nat} (h : 2 * (m * unitsPerOne) < n) :
    closest false m n = ofNearest false 0 := by
  have hdiv : m * unitsPerOne / n = 0 := Nat.div_eq_of_lt (by omega)
  have hbits : nearestBits m n = 0 := by
    unfold nearestBits
    dsimp only
    have hmod : m * unitsPerOne % n = m * unitsPerOne := Nat.mod_eq_of_lt (by omega)
    rw [hdiv, show (0 : Nat).log2 - 52 = 0 from rfl, Nat.zero_mul, Nat.zero_add,
      show twoTo 0 = 1 from rfl, Nat.mul_one, roundHalfEven, hdiv, hmod, if_pos h]
  rw [closest_eq, hbits]

end

/-! ### Decimals by unpacked numbers -/

section

variable {m : Nat} {e : Int}

/-- A decimal whose exponent has four digits is beyond the doubles. -/
theorem closest_of_large_exponent (hm : m ≠ 0) (he : 1024 ≤ e) :
    closest false (m * tenTo e.toNat) (tenTo (-e).toNat) = infinity := by
  have hden : (-e).toNat = 0 := by omega
  refine (closest_of_reach false (tenTo_pos _) ?_).trans overflow_eq
  rw [hden, mul_tenTo_zero]
  calc reach ≤ twoTo 1024 := Nat.sub_le _ _
    _ ≤ tenTo 1024 := twoTo_le_tenTo 1024
    _ ≤ tenTo e.toNat := tenTo_le (by omega)
    _ ≤ m * tenTo e.toNat := Nat.le_mul_of_pos_left _ (Nat.pos_of_ne_zero hm)

/-- A decimal with so many places that two to their number exceeds its digits is closest to
zero. -/
theorem closest_of_many_places (he : (m.log2 : Int) + 1076 ≤ -e) :
    closest false (m * tenTo e.toNat) (tenTo (-e).toNat) = ofNearest false 0 := by
  have hnum : e.toNat = 0 := by omega
  have hunits : unitsPerOne = twoTo 1074 := rfl
  refine closest_of_small ?_
  rw [hnum, mul_tenTo_zero, hunits]
  calc 2 * (m * twoTo 1074) < 2 * (twoTo (m.log2 + 1) * twoTo 1074) :=
        Nat.mul_lt_mul_of_pos_left
          (Nat.mul_lt_mul_of_pos_right Nat.lt_log2_self (twoTo_pos 1074)) (by decide)
    _ = twoTo (m.log2 + 1 + 1074 + 1) := by
        rw [twoTo_succ (m.log2 + 1 + 1074), twoTo_add (m.log2 + 1) 1074]
        ring
    _ ≤ tenTo (m.log2 + 1 + 1074 + 1) := twoTo_le_tenTo _
    _ ≤ tenTo (-e).toNat := tenTo_le (by omega)

theorem closest_zero_digits (e : Int) :
    closest false (0 * tenTo e.toNat) (tenTo (-e).toNat) = ofNearest false 0 := by
  refine closest_of_small ?_
  rw [Nat.zero_mul, Nat.zero_mul]
  exact tenTo_pos _

end

/-- The way to a decimal's double over unpacked numbers. -/
theorem ofModel_ofScientific (m : Nat) (e : Int) :
    Float.ofModel (Float.Model.ofScientific m e) =
      closest false (m * tenTo e.toNat) (tenTo (-e).toNat) := by
  have hlast : (2 : Int) ^ Format.binary64.exponentBits = 2048 := rfl
  unfold Float.Model.ofScientific UnpackedFloat.ofScientific
  rw [hlast]
  split
  · next hm =>
    rw [hm, closest_zero_digits]
    exact ofModel_zero
  next hm =>
  split
  · next hlarge =>
    rw [closest_of_large_exponent hm (by omega)]
    rfl
  next hlarge =>
  split
  · next htiny =>
    rw [closest_of_many_places (by omega)]
    exact ofModel_zero
  next htiny =>
  split
  · next hnonneg =>
    -- the digits are shifted up, so that the product has bits enough to be rounded once
    have hbits : Format.binary64.mantissaBits = 53 := rfl
    have hden : (-e).toNat = 0 := by omega
    have hpos : 0 < m * 10 ^ e.toNat :=
      Nat.mul_pos (Nat.pos_of_ne_zero hm) (Nat.pow_pos (by decide))
    have hplaced : -((53 : Nat) : Int) + 0 ≤
        keptExponent (m <<< 53 * 10 ^ e.toNat) (-((53 : Nat) : Int) + 0) := by
      rw [Nat.shiftLeft_eq, Nat.mul_right_comm]
      unfold keptExponent
      rw [log2_mul_two_pow hpos]
      omega
    simp only [hbits]
    refine (ofModel_mul hplaced).trans ?_
    refine closest_congr false (twoTo_pos _) (tenTo_pos _) ?_
    rw [hden, Nat.shiftLeft_eq]
    show m * twoTo 53 * tenTo e.toNat * twoTo 0 * tenTo 0 = m * tenTo e.toNat * twoTo 53
    rw [mul_tenTo_zero, show twoTo 0 = 1 from rfl]
    ring
  · next hneg =>
    have hnum : e.toNat = 0 := by omega
    refine ofModel_div.trans ?_
    rw [hnum, mul_tenTo_zero]
    show closest false (m * 1) (tenTo (-e).toNat * 1) = _
    rw [Nat.mul_one, Nat.mul_one]

/-! ### Decimals -/

/-- The short way to a decimal's double: digits and power of ten are doubles, which are
multiplied or divided. -/
theorem ofScientific_of_exact {m : Nat} {e : Int} (hdigits : m < 2 ^ 53) (hpower : e.natAbs ≤ 22) :
    Float.ofScientific m (e < 0) e.natAbs =
      closest false (m * tenTo e.toNat) (tenTo (-e).toNat) := by
  obtain ⟨l, t, hl, hlpos, hllead, hlvalue⟩ := parts_power ⟨e.natAbs, Nat.lt_succ_of_le hpower⟩
  unfold Float.ofScientific
  rw [dif_pos ⟨hdigits, hpower⟩]
  dsimp only
  rcases Nat.eq_zero_or_pos m with rfl | hpos
  · -- a zero has no leading bit, so that it is multiplied and divided by rules of its own
    have hzero : (0 : Nat).toUInt64.toFloat.toModel.unpack = .zero .positive := rfl
    have hunpacked := unpack_of_parts_pos hl hlpos
    rw [closest_zero_digits, ← ofModel_zero]
    split
    · exact div_of_zero hzero hunpacked
    · exact mul_of_zero hzero hunpacked
  · have hword : m.toUInt64.toNat = m := by
      rw [Nat.toUInt64_eq, UInt64.toNat_ofNat']
      exact Nat.mod_eq_of_lt (Nat.lt_trans hdigits (by decide))
    have hwhole : m.toUInt64.toFloat = closest false m 1 := by
      rw [toFloat_eq_closest (hword.symm ▸ hpos), hword]
    obtain ⟨k, s, hk, hkpos, hklead, hkvalue⟩ := parts_closest_whole hpos hdigits
    rw [← hwhole] at hk
    split
    · next hneg =>
      have hneg' : e < 0 := of_decide_eq_true hneg
      have hnum : e.toNat = 0 := by omega
      have hden : (-e).toNat = e.natAbs := by omega
      rw [hnum, hden, mul_tenTo_zero]
      exact div_eq_closest hk hl hkpos hlpos hkvalue hlvalue
    · next hnonneg =>
      have hnonneg' : ¬ e < 0 := fun h => hnonneg (decide_eq_true h)
      have hnum : e.toNat = e.natAbs := by omega
      have hden : (-e).toNat = 0 := by omega
      rw [hnum, hden]
      exact mul_eq_closest hk hl hklead hllead hkvalue hlvalue

/-- The double of a decimal is the closest one. -/
theorem ofScientific_eq_closest (m : Nat) (e : Int) :
    Float.ofScientific m (e < 0) e.natAbs =
      closest false (m * tenTo e.toNat) (tenTo (-e).toNat) := by
  by_cases hfast : m < 2 ^ 53 ∧ e.natAbs ≤ 22
  · exact ofScientific_of_exact hfast.1 hfast.2
  · have hsigned : (if e < 0 then Int.negOfNat e.natAbs else Int.ofNat e.natAbs) = e := by
      split
      · rw [Int.negOfNat_eq]
        show -(e.natAbs : Int) = e
        omega
      · show (e.natAbs : Int) = e
        omega
    have hmodel : Float.ofScientific m (e < 0) e.natAbs =
        .ofModel (Float.Model.ofScientific m e) := by
      unfold Float.ofScientific
      rw [dif_neg hfast]
      simp only [decide_eq_true_eq, hsigned]
    rw [hmodel]
    exact ofModel_ofScientific m e

end Real

/-! ### Literals -/

namespace Literal

/-- The double of a literal is closest to the number that it writes. -/
theorem toReal_eq_closest (l : Literal) :
    l.toReal = Real.closest false (Text.digitsValue (l.whole ++ l.fraction) * tenTo l.scale.toNat)
      (tenTo (-l.scale).toNat) :=
  Real.ofScientific_eq_closest _ _

theorem signed_eq_closest (sign : List Char) (l : Literal) :
    signed sign l = Real.closest (decide (sign = ['-']))
      (Text.digitsValue (l.whole ++ l.fraction) * tenTo l.scale.toNat) (tenTo (-l.scale).toNat) := by
  unfold signed
  rw [toReal_eq_closest, Real.neg_closest (tenTo_pos _)]
  split
  · next hminus => rw [decide_eq_true hminus]
  · next hplus => rw [decide_eq_false hplus]

end Literal

end Gridbook
