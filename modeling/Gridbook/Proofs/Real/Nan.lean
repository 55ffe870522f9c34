/-
Gridbook/Proofs/Real/Nan.lean

Doubles that are numbers, the infinities included.  What the operations make of
unpacked doubles is rounded to a number, unless they have no value; a number stays
one when it is packed (`isNaN_pack`).

Main statement: the lenient reading of a cell is a number (`isNaN_lenientNumber`).
-/
import Mathlib
import Gridbook.Cell.Numeric
import Gridbook.Proofs.Outcome

namespace Gridbook

open Float.Model

namespace Real

/-! ### Packing -/

/-- A double whose fields do not spell not-a-number is a number. -/
theorem isNaN_unpack {b : BitVec Format.binary64.numBits}
    (h : UnpackedFloat.unpackExponent b = -1#11 → UnpackedFloat.unpackMantissa b = 0#52) :
    (UnpackedFloat.unpack Format.binary64 b).isNaN = false := by
  unfold UnpackedFloat.unpack
  dsimp only
  split
  · next he =>
    rw [if_pos (h he)]
    rfl
  split
  · split <;> rfl
  · rfl

/-- What is packed as a number is unpacked as one. -/
theorem isNaN_pack {u : UnpackedFloat} (h : u.isNaN = false) : (pack u).isNaN = false := by
  have hpacked : ∀ (s : UnpackedFloat.Sign) (e : BitVec 11) (m : BitVec 52),
      (e = -1#11 → m = 0#52) →
      (UnpackedFloat.unpack Format.binary64
        (UnpackedFloat.packComponents Format.binary64 s e m)).isNaN = false := fun s e m hem => by
    apply isNaN_unpack
    rw [UnpackedFloat.unpackExponent_packComponents, UnpackedFloat.unpackMantissa_packComponents]
    exact hem
  show (UnpackedFloat.unpack Format.binary64 (UnpackedFloat.pack Format.binary64 u)).isNaN = false
  cases u with
  | notANumber => cases h
  | infinity s => exact hpacked s _ _ fun _ => rfl
  | zero s => exact hpacked s _ _ fun _ => rfl
  | finite s m e hm =>
    unfold UnpackedFloat.pack
    dsimp only
    split
    · exact hpacked s _ _ fun _ => rfl
    next hexponent =>
    split
    · -- the exponent is below the largest one
      refine hpacked s _ _ fun hmax => ?_
      have hfield := congrArg BitVec.toNat hmax
      rw [BitVec.toNat_ofNat] at hfield
      simp only [Int.cast_ofNat_Int, Nat.reducePow, BitVec.reduceNeg, BitVec.toNat_ofNat,
        Nat.mod_succ, Nat.reduceLeDiff, Nat.not_le, Nat.zero_lt_succ, Int.toNat_lt']
        at hfield hexponent
      omega
    · exact hpacked s _ _ nofun

/-- The exponent is a field of the bits. -/
theorem field_of_unpackExponent {b : BitVec Format.binary64.numBits}
    (h : UnpackedFloat.unpackExponent b = -1#11) : b.toNat / twoTo 52 % twoTo 11 = 2047 := by
  have hfield : b.toNat >>> 52 % 2 ^ 11 = (-1#11).toNat := congrArg BitVec.toNat h
  rw [Nat.shiftRight_eq_div_pow] at hfield
  exact hfield

/-- A double is finite if its exponent field is not the last one, and only then. -/
theorem isFinite_iff_field {x : Float} :
    isFinite x ↔ x.toBits.toNat / twoTo 52 % twoTo 11 ≠ 2047 := by
  unfold isFinite parts
  dsimp only
  by_cases hfield : x.toBits.toNat / twoTo 52 % twoTo 11 = 2047
  · rw [if_pos hfield]
    refine ⟨fun h => ?_, fun h => absurd hfield h⟩
    split at h
    · next heq => split at heq <;> cases heq
    · cases h
  · rw [if_neg hfield]
    refine ⟨fun _ => hfield, fun _ => ?_⟩
    by_cases hzero : x.toBits.toNat / twoTo 52 % twoTo 11 = 0
    · rw [if_pos hzero]
    · rw [if_neg hzero]

/-- A finite double, told by its exponent field, is a number. -/
theorem isNaN_of_isFinite {x : Float} (h : isFinite x) : x.isNaN = false :=
  isNaN_unpack fun hexponent =>
    absurd (field_of_unpackExponent hexponent) (isFinite_iff_field.1 h)

/-! ### Operations -/

theorem isNaN_round (s : UnpackedFloat.Sign) (m : Nat) (e : Int) (a : UnpackedFloat.Accuracy) :
    (UnpackedFloat.roundWithAccuracy Format.binary64 s m e a).isNaN = false := by
  unfold UnpackedFloat.roundWithAccuracy
  dsimp only
  split <;> rfl

/-- A number times a finite one other than zero is a number. -/
theorem isNaN_mul {u : UnpackedFloat} (hu : u.isNaN = false) (s : UnpackedFloat.Sign) {m : Nat}
    (e : Int) (hm : 0 < m) :
    (UnpackedFloat.mul Format.binary64 u (.finite s m e hm)).isNaN = false := by
  cases u with
  | notANumber => cases hu
  | infinity => rfl
  | zero => rfl
  | finite => exact isNaN_round _ _ _ _

/-- A number over a finite one other than zero is a number. -/
theorem isNaN_div {u : UnpackedFloat} (hu : u.isNaN = false) (s : UnpackedFloat.Sign) {m : Nat}
    (e : Int) (hm : 0 < m) :
    (UnpackedFloat.div Format.binary64 u (.finite s m e hm)).isNaN = false := by
  cases u with
  | notANumber => cases hu
  | infinity => rfl
  | zero => rfl
  | finite => exact isNaN_round _ _ _ _

theorem isNaN_neg {x : Float} (h : x.isNaN = false) : (-x).isNaN = false := by
  have hu : x.toModel.unpack.isNaN = false := h
  apply isNaN_pack
  generalize x.toModel.unpack = u at hu
  cases u with
  | notANumber => cases hu
  | infinity => rfl
  | zero => rfl
  | finite => rfl

/-! ### Literals -/

/-- The powers of ten that are doubles are finite and not zero. -/
theorem unpack_powerOfTen (i : Fin 23) :
    ∃ s m e hm, Float.exactlyRepresentablePowersOfTen[i].toModel.unpack = .finite s m e hm := by
  have hfinite : ∀ i : Fin 23, (match Float.exactlyRepresentablePowersOfTen[i].toModel.unpack with
      | .finite .. => true
      | _ => false) = true := by decide +kernel
  have hpower := hfinite i
  split at hpower
  · next s m e hm heq => exact ⟨s, m, e, hm, heq⟩
  · cases hpower

theorem isNaN_toFloat (n : UInt64) : n.toFloat.isNaN = false := by
  apply isNaN_pack
  unfold UnpackedFloat.ofUInt64 UnpackedFloat.ofNat UnpackedFloat.ofInt UnpackedFloat.normalize
  split
  · exact isNaN_round _ _ _ _
  · rfl
  · exact isNaN_round _ _ _ _

theorem isNaN_ofDecimal (m : Nat) (e : Int) :
    (UnpackedFloat.ofScientific Format.binary64 m e).isNaN = false := by
  have hfinite : ∀ (s : UnpackedFloat.Sign) (k : Nat) (p : Int) (hk : 0 < k),
      (UnpackedFloat.finite s k p hk).isNaN = false := fun _ _ _ _ => rfl
  unfold UnpackedFloat.ofScientific
  split
  · rfl
  split
  · rfl
  split
  · rfl
  split
  · exact isNaN_mul (hfinite _ _ _ _) _ _ _
  · exact isNaN_div (hfinite _ _ _ _) _ _ _

/-- The double nearest to a decimal is a number. -/
theorem isNaN_ofScientific (m : Nat) (sign : Bool) (e : Nat) :
    (Float.ofScientific m sign e).isNaN = false := by
  unfold Float.ofScientific
  split
  · next h =>
    obtain ⟨s, k, p, hk, hpower⟩ := unpack_powerOfTen ⟨e, Nat.lt_succ_of_le h.2⟩
    have hmul := isNaN_mul (isNaN_toFloat m.toUInt64) s p hk
    have hdiv := isNaN_div (isNaN_toFloat m.toUInt64) s p hk
    rw [← hpower] at hmul hdiv
    dsimp only
    split
    · exact isNaN_pack hdiv
    · exact isNaN_pack hmul
  · exact isNaN_pack (isNaN_ofDecimal m _)

end Real

/-- The lenient reading of a cell is a number. -/
theorem Cell.isNaN_lenientNumber {c : Cell} {x : Float} (h : c.lenientNumber = .ok x) :
    x.isNaN = false := by
  have hzero : (0 : Float).isNaN = false := by decide +kernel
  have hfinite : ∀ y : Float, (if Real.isFinite y then y else 0).isNaN = false := fun y => by
    split
    · next hy => exact Real.isNaN_of_isFinite hy
    · exact hzero
  have htext : ∀ s, (lenientText s).isNaN = false := fun s => by
    unfold lenientText Literal.plainReal?
    dsimp only
    split
    · next l _ =>
      show (if _ then -l.toReal else l.toReal).isNaN = false
      split
      · exact Real.isNaN_neg (Real.isNaN_ofScientific _ _ _)
      · exact Real.isNaN_ofScientific _ _ _
    · exact hzero
  unfold lenientNumber at h
  split at h
  · next b =>
    cases h
    cases b with
    | true => decide +kernel
    | false => exact hzero
  · obtain ⟨y, -, rfl⟩ := Outcome.map_eq_ok.1 h
    exact hfinite y
  · cases h
    exact hfinite _
  · cases h
    exact htext _
  · cases h
    exact htext _
  · cases h
    exact hzero

end Gridbook
