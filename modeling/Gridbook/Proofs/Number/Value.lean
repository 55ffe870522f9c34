/-
Gridbook/Proofs/Number/Value.lean

The exact values of numbers.  A whole number is its own value, and a double is a fraction of
a power of two or an infinity; all values are on one line, the rational numbers between its
two ends.

Comparison goes by places, which count values in units of the smallest positive double.  The
units are the same for all numbers and cancel (`value_eq_ofPlace`), so that the order of
places is the order of values (`ofPlace_lt_iff`).

Main statement: numbers of any two kinds are compared by their values
(`compare_eq_compare_value`).
-/
import Gridbook.Proofs.Number.Place
import Gridbook.Proofs.Real.Extended
import Gridbook.Proofs.Real.Packing
import Gridbook.Proofs.Store.Order

namespace Gridbook

namespace Real

open Float.Model

/-- The value of a sign, a mantissa and a shift, in ones. -/
def finiteValue (negative : Bool) (m s : Nat) : ℚ :=
  (if negative then -1 else 1) * m * 2 ^ ((s : ℤ) - 1074)

/-- The exact value of a double that is a number. -/
def value (x : Float) : WithBot (WithTop ℚ) :=
  match parts x with
  | .finite negative m s => (finiteValue negative m s : WithTop ℚ)
  | .infinite true => ⊥
  | _ => ⊤

/-- What has the parts of not-a-number is no number. -/
theorem isNaN_of_parts {x : Float} (h : parts x = .nan) : x.isNaN = true := by
  unfold parts at h
  dsimp only at h
  rw [← toNat_unpackExponent, ← toNat_unpackMantissa] at h
  split at h
  · next hlast =>
    split at h
    · cases h
    · next hfraction =>
      have hfield : @UnpackedFloat.unpackExponent Format.binary64 x.toModel.toBits.toBitVec =
          -1#11 := BitVec.eq_of_toNat_eq hlast
      have hsome : @UnpackedFloat.unpackMantissa Format.binary64 x.toModel.toBits.toBitVec ≠
          0#52 := fun heq => hfraction (congrArg BitVec.toNat heq)
      show (UnpackedFloat.unpack Format.binary64 x.toModel.toBits.toBitVec).isNaN = true
      unfold UnpackedFloat.unpack
      dsimp only
      rw [if_pos hfield, if_neg hsome]
      rfl
  · split at h <;> cases h

/-- The height of a double counts its value in units. -/
theorem finiteValue_eq (negative : Bool) (m s : Nat) :
    finiteValue negative m s = (Parts.finite negative m s).height / unitsPerOne := by
  have hscale : (2 : ℚ) ^ ((s : ℤ) - 1074) = (twoTo s : Nat) / unitsPerOne := by
    rw [zpow_sub₀ two_ne_zero, zpow_natCast, unitsPerOne, cast_twoTo, cast_twoTo]
    norm_cast
  rw [finiteValue, hscale]
  cases negative with
  | false =>
    show 1 * (m : ℚ) * _ = ((m * twoTo s : Nat) : Int) / _
    push_cast
    ring
  | true =>
    show -1 * (m : ℚ) * _ = (-((m * twoTo s : Nat) : Int) : Int) / _
    push_cast
    ring

end Real

namespace Number

open Gridbook.Real

/-- The exact value of a number. -/
def value : Number → WithBot (WithTop ℚ)
  | whole n => ((n : ℚ) : WithTop ℚ)
  | word w => ((w.toInt : ℚ) : WithTop ℚ)
  | real x => Real.value x

/-- The value at a place: an end of the line, or so many units. -/
def ofPlace (p : Int × Int) : WithBot (WithTop ℚ) :=
  if p.1 < 0 then ⊥ else if 0 < p.1 then ⊤ else ((p.2 / unitsPerOne : ℚ) : WithTop ℚ)

theorem ofPlace_whole (n : Int) : ofPlace (0, n * unitsPerOne) = ((n : ℚ) : WithTop ℚ) := by
  have hunits : (unitsPerOne : ℚ) ≠ 0 := Nat.cast_ne_zero.2 (twoTo_pos 1074).ne'
  have hvalue : ((n * unitsPerOne : Int) : ℚ) / unitsPerOne = n := by
    rw [Int.cast_mul, Int.cast_natCast, mul_div_cancel_right₀ _ hunits]
  exact congrArg (fun q : ℚ => ((q : WithTop ℚ) : WithBot (WithTop ℚ))) hvalue

theorem value_eq_ofPlace (n : Number) : n.value = ofPlace n.place := by
  cases n with
  | whole z => exact (ofPlace_whole z).symm
  | word w => exact (ofPlace_whole w.toInt).symm
  | real x =>
    unfold value Real.value place
    dsimp only
    cases parts x with
    | nan => rfl
    | infinite negative => cases negative <;> rfl
    | finite negative m s =>
      exact congrArg (fun q : ℚ => ((q : WithTop ℚ) : WithBot (WithTop ℚ)))
        (finiteValue_eq negative m s)

/-- The places of numbers: beyond the finite ones on either side, or on the line. -/
theorem place_cases {n : Number} (h : n.isNan = false) :
    n.place = (-1, 0) ∨ (∃ z, n.place = (0, z)) ∨ n.place = (1, 0) := by
  cases n with
  | whole z => exact .inr (.inl ⟨_, rfl⟩)
  | word w => exact .inr (.inl ⟨_, rfl⟩)
  | real x =>
    unfold place
    dsimp only
    cases hparts : parts x with
    | nan => exact absurd (isNaN_of_parts hparts) (Bool.eq_false_iff.1 h)
    | infinite negative =>
      cases negative with
      | true => exact .inl rfl
      | false => exact .inr (.inr rfl)
    | finite negative m s => exact .inr (.inl ⟨_, rfl⟩)

/-- The values at the places of numbers are in the order of the places. -/
theorem ofPlace_lt_iff {p q : Int × Int} (hp : p = (-1, 0) ∨ (∃ z, p = (0, z)) ∨ p = (1, 0))
    (hq : q = (-1, 0) ∨ (∃ z, q = (0, z)) ∨ q = (1, 0)) :
    ofPlace p < ofPlace q ↔ p.1 < q.1 ∨ p.1 = q.1 ∧ p.2 < q.2 := by
  have hlow : ofPlace (-1, 0) = ⊥ := rfl
  have hhigh : ofPlace (1, 0) = ⊤ := rfl
  have hends : ∀ z : Int, ofPlace (0, z) ≠ ⊥ ∧ ofPlace (0, z) ≠ ⊤ := fun z => by
    refine ⟨WithBot.coe_ne_bot, fun htop => WithTop.coe_ne_top (WithBot.coe_injective htop)⟩
  have hfinite : ∀ y z : Int, ofPlace (0, y) < ofPlace (0, z) ↔ y < z := fun y z => by
    have hunits : (0 : ℚ) < unitsPerOne := Nat.cast_pos.2 (twoTo_pos 1074)
    show (((y / unitsPerOne : ℚ) : WithTop ℚ) : WithBot (WithTop ℚ)) <
      ((z / unitsPerOne : ℚ) : WithTop ℚ) ↔ _
    rw [WithBot.coe_lt_coe, WithTop.coe_lt_coe, div_lt_div_iff_of_pos_right hunits, Int.cast_lt]
  rcases hp with rfl | ⟨y, rfl⟩ | rfl <;> rcases hq with rfl | ⟨z, rfl⟩ | rfl
  · simp
  · simp [hlow, bot_lt_iff_ne_bot, hends]
  · simp [hlow, hhigh]
  · simp [hlow]
  · simp [hfinite]
  · simp [hhigh, lt_top_iff_ne_top, hends]
  · simp [hlow]
  · simp [hhigh]
  · simp

/-- Numbers are compared by their exact values, whatever their kinds. -/
theorem compare_eq_compare_value {a b : Number} (ha : a.isNan = false) (hb : b.isNan = false) :
    a.compare b = Ord.compare a.value b.value := by
  have hlt : ∀ {a b : Number}, a.isNan = false → b.isNan = false →
      (a.compare b = .lt ↔ a.value < b.value) := fun {a b} ha hb => by
    rw [compare_eq_lt_iff, value_eq_ofPlace, value_eq_ofPlace,
      ofPlace_lt_iff (place_cases ha) (place_cases hb)]
  rcases lt_trichotomy a.value b.value with h | h | h
  · rw [(hlt ha hb).2 h, compare_lt_iff_lt.2 h]
  · -- neither is less than the other one
    rw [compare_eq_iff_eq.2 h]
    cases hcompare : a.compare b with
    | eq => rfl
    | lt => exact absurd h ((hlt ha hb).1 hcompare).ne
    | gt => exact absurd h ((hlt hb ha).1 (Std.OrientedCmp.gt_iff_lt.1 hcompare)).ne'
  · rw [Std.OrientedCmp.gt_iff_lt.2 ((hlt hb ha).2 h), compare_gt_iff_gt.2 h]

end Number

end Gridbook
