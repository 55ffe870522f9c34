/-
Gridbook/Proofs/Real/Whole.lean

Whole numbers that are doubles.  A natural number below `2^53` has a nearest double
without being rounded: in units of the smallest double it is a multiple of the step
that its magnitude allows.  The bits that are spelled for it are read back as its
parts (`parts_ofBits`).

Main statement: such a number is read off its double (`integralOf?_of_ofInt?`).
-/
import Gridbook.Form
import Gridbook.Proofs.Real.Nan
import Gridbook.Proofs.Real.Range

namespace Gridbook

open Float.Model

namespace Real

/-! ### Bits -/

/-- The bits of a double are kept, if they do not spell not-a-number. -/
theorem toBits_ofBits {b : UInt64} (h : b.toNat / twoTo 52 % twoTo 11 ≠ 2047) :
    (Float.ofBits b).toBits = b := by
  have hvalid : Format.binary64.Valid b.toBitVec :=
    ⟨fun hexponent _ => absurd (field_of_unpackExponent hexponent) h⟩
  exact congrArg UInt64.ofBitVec (UnpackedFloat.pack_unpack_of_valid hvalid)

theorem isFinite_ofBits {b : UInt64} (h : b.toNat / twoTo 52 % twoTo 11 ≠ 2047) :
    isFinite (Float.ofBits b) := by
  rwa [isFinite_iff_field, toBits_ofBits h]

/-- The double nearest to a quotient is finite, if there is one. -/
theorem isFinite_of_ofRatio? {negative : Bool} {num den : Nat} {x : Float}
    (h : ofRatio? negative num den = some x) : isFinite x := by
  unfold ofRatio? at h
  dsimp only at h
  split at h
  · next hlt =>
    cases h
    have h11 : twoTo 11 = 2048 := rfl
    have h52 : twoTo 52 = 4503599627370496 := rfl
    have h63 : twoTo 63 = 9223372036854775808 := rfl
    rw [infinityBits, h52] at hlt
    apply isFinite_ofBits
    -- the sign does not touch the exponent field
    have hsmall : nearestBits num den + (if negative then twoTo 63 else 0) < UInt64.size := by
      rw [h63, UInt64.size]
      split <;> omega
    rw [UInt64.toNat_ofNat_of_lt' hsmall, h11, h52, h63]
    split <;> omega
  · cases h

/-- The bits of a scale and of the digits above it, which are 53 unless nothing is
scaled, are read back as these, with the sign in the last bit. -/
theorem parts_ofBits {negative : Bool} {m s : Nat} (hm : m < twoTo 53)
    (hlead : 0 < s → twoTo 52 ≤ m) (hs : s ≤ 2045) :
    parts (Float.ofBits (UInt64.ofNat (s * twoTo 52 + m + if negative then twoTo 63 else 0))) =
      .finite negative m s := by
  have h11 : twoTo 11 = 2048 := rfl
  have h52 : twoTo 52 = 4503599627370496 := rfl
  have h53 : twoTo 53 = 9007199254740992 := rfl
  have h63 : twoTo 63 = 9223372036854775808 := rfl
  rw [h53] at hm
  rw [h52] at hlead ⊢
  obtain ⟨sign, hsign, hbit⟩ : ∃ sign, (if negative then twoTo 63 else 0) = sign * twoTo 63 ∧
      (sign = 0 ∧ negative = false ∨ sign = 1 ∧ negative = true) := by
    cases negative with
    | false => exact ⟨0, (Nat.zero_mul _).symm, .inl ⟨rfl, rfl⟩⟩
    | true => exact ⟨1, (Nat.one_mul _).symm, .inr ⟨rfl, rfl⟩⟩
  rw [hsign, h63]
  have hnat : (UInt64.ofNat (s * 4503599627370496 + m + sign * 9223372036854775808)).toNat =
      s * 4503599627370496 + m + sign * 9223372036854775808 :=
    UInt64.toNat_ofNat_of_lt' (by rw [UInt64.size]; omega)
  have hkept := toBits_ofBits
    (b := UInt64.ofNat (s * 4503599627370496 + m + sign * 9223372036854775808))
    (by rw [hnat, h11, h52]; omega)
  have hnegative : decide (9223372036854775808 ≤
      s * 4503599627370496 + m + sign * 9223372036854775808) = negative := by
    rcases hbit with ⟨rfl, rfl⟩ | ⟨rfl, rfl⟩
    · exact decide_eq_false (by omega)
    · exact decide_eq_true (by omega)
  unfold parts
  dsimp only
  rw [hkept, hnat, h11, h52, h63, if_neg (by omega), hnegative]
  rcases Nat.lt_or_ge m 4503599627370496 with hlow | hhigh
  · -- without a leading bit nothing is scaled
    have hzero : s = 0 := by omega
    have hfraction :
        (s * 4503599627370496 + m + sign * 9223372036854775808) % 4503599627370496 = m := by omega
    rw [if_pos (by omega), hfraction, hzero]
  · have hfraction : (s * 4503599627370496 + m + sign * 9223372036854775808) % 4503599627370496 +
        4503599627370496 = m := by omega
    have hfield : (s * 4503599627370496 + m + sign * 9223372036854775808) / 4503599627370496 %
        2048 - 1 = s := by omega
    rw [if_neg (by omega), hfraction, hfield]

/-! ### Numbers below `2^53` -/

theorem twoTo_dvd {m n : Nat} (h : m ≤ n) : twoTo m ∣ twoTo n :=
  Nat.pow_dvd_pow 2 h

theorem scale_le {n : Nat} (h : n < twoTo 53) (k : Nat) : (n * twoTo k).log2 - 52 ≤ k := by
  rcases Nat.eq_zero_or_pos n with rfl | hpos
  · rw [Nat.zero_mul, Nat.log2_zero]
    exact Nat.zero_le k
  · have hne : n * twoTo k ≠ 0 := Nat.ne_of_gt (Nat.mul_pos hpos (twoTo_pos k))
    have hlt : n * twoTo k < 2 ^ (53 + k) := by
      rw [Nat.pow_add]
      exact Nat.mul_lt_mul_of_pos_right h (twoTo_pos k)
    have hlog := (Nat.log2_lt hne).2 hlt
    omega

/-- The step of a number below `2^53` divides it, in units of the smallest double. -/
theorem exists_digits {n : Nat} (h : n < twoTo 53) :
    ∃ m s, m < twoTo 53 ∧ (0 < s → twoTo 52 ≤ m) ∧ s ≤ 1074 ∧ m * twoTo s = n * unitsPerOne ∧
      nearestBits n 1 = s * twoTo 52 + m := by
  obtain ⟨hlt, hle⟩ := scale_bounds (u := n * unitsPerOne) Nat.one_pos rfl
  rw [Nat.div_one, Nat.one_mul] at hlt hle
  have hscale : (n * unitsPerOne).log2 - 52 ≤ 1074 := scale_le h 1074
  have hround : nearestBits n 1 = ((n * unitsPerOne).log2 - 52) * twoTo 52 +
      roundHalfEven (n * unitsPerOne) (twoTo ((n * unitsPerOne).log2 - 52)) := by
    unfold nearestBits
    dsimp only
    rw [Nat.div_one, Nat.one_mul]
  generalize (n * unitsPerOne).log2 - 52 = s at hlt hle hscale hround
  have hdvd : twoTo s ∣ n * unitsPerOne :=
    Nat.dvd_trans (twoTo_dvd hscale) (Nat.dvd_mul_left unitsPerOne n)
  obtain ⟨m, hm⟩ := hdvd
  rw [hm] at hlt hle hround
  have hpos := twoTo_pos s
  refine ⟨m, s, ?_, fun hs => ?_, hscale, ?_, ?_⟩
  · exact Nat.lt_of_mul_lt_mul_right (by rwa [Nat.mul_comm] at hlt)
  · exact Nat.le_of_mul_le_mul_left (by rw [Nat.mul_comm]; exact hle hs) hpos
  · rw [Nat.mul_comm, hm]
  · -- nothing is left over, so nothing is rounded
    rw [hround, roundHalfEven, Nat.mul_mod_right, Nat.mul_div_cancel_left m hpos]
    exact congrArg _ (if_pos hpos)

/-- A natural number below `2^53` is what its double equals. -/
theorem integralOf?_of_ofInt? {n : Nat} (h : n < twoTo 53) {x : Float} (hx : ofInt? n = some x) :
    Form.integralOf? x = some (n : Int) := by
  obtain ⟨m, s, hm, hlead, hs, hdigits, hbits⟩ := exists_digits h
  have hparts : parts x = .finite false m s := by
    unfold ofInt? ofRatio? at hx
    dsimp only at hx
    split at hx
    · cases hx
      rw [Int.natAbs_natCast, hbits, decide_eq_false (Int.not_lt.2 (Int.natCast_nonneg n))]
      exact parts_ofBits hm hlead (by omega)
    · cases hx
  unfold Form.integralOf?
  rw [hparts]
  dsimp only
  have hquotient : n * unitsPerOne / unitsPerOne = n := Nat.mul_div_cancel n (twoTo_pos 1074)
  rw [hdigits, Nat.mul_mod_left, if_pos rfl, hquotient, if_neg Bool.false_ne_true]

end Real

end Gridbook
