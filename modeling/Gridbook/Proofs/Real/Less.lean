/-
Gridbook/Proofs/Real/Less.lean

The order of doubles.  Numbers, the infinities included, stand in a row: by their side, then
by the exponent, then by the mantissa (`rank`).  What is not a number is before nothing and
after nothing.

Main statements: the order is transitive (`less_trans`) and has no loops (`less_irrefl`), and the
two infinities are its ends (`eq_infinity`, `eq_neg_infinity`).
-/
import Gridbook.Proofs.Real.Nan

namespace Gridbook.Real

open Float.Model

/-! ### Unpacked doubles -/

/-- Where a number stands. -/
def rank : UnpackedFloat → ℤ ×ₗ ℤ ×ₗ ℤ
  | .infinity .negative => toLex (-2, toLex (0, 0))
  | .finite .negative m e _ => toLex (-1, toLex (-e, -m))
  | .zero _ => toLex (0, toLex (0, 0))
  | .finite .positive m e _ => toLex (1, toLex (e, m))
  | .infinity .positive => toLex (2, toLex (0, 0))
  | .notANumber => toLex (3, toLex (0, 0))

theorem compare_signs : compare UnpackedFloat.Sign.negative .positive = .lt := by decide

theorem lt_iff_rank {u v : UnpackedFloat} (hu : u.isNaN = false) (hv : v.isNaN = false) :
    u.lt v ↔ rank u < rank v := by
  unfold UnpackedFloat.lt
  rcases u with (_ | _) | _ | _ | ⟨_ | _, m, e, _⟩ <;>
    rcases v with (_ | _) | _ | _ | ⟨_ | _, m', e', _⟩ <;>
    first
    | (cases hu; done)
    | (cases hv; done)
    | simp [UnpackedFloat.compare, rank, compare_signs, Prod.Lex.toLex_lt_toLex,
        Ordering.then_eq_lt, Ordering.swap_then, Ordering.swap_eq_lt, compare_lt_iff_lt,
        compare_gt_iff_gt]

/-- Only numbers are in an order. -/
theorem isNaN_of_lt {u v : UnpackedFloat} (h : u.lt v) : u.isNaN = false ∧ v.isNaN = false := by
  unfold UnpackedFloat.lt at h
  cases u with
  | notANumber => cases v <;> cases h
  | _ =>
    cases v with
    | notANumber => cases h
    | _ => exact ⟨rfl, rfl⟩

/-- Nothing is above the upper infinity, and no other number is as far up. -/
theorem eq_infinity_of_not_lt {u : UnpackedFloat} (hu : u.isNaN = false)
    (h : u.lt (.infinity .positive) = false) : u = .infinity .positive := by
  cases u with
  | notANumber => cases hu
  | infinity s =>
    cases s with
    | positive => rfl
    | negative => cases h
  | zero s => cases h
  | finite s => cases s <;> cases h

theorem eq_neg_infinity_of_not_lt {u : UnpackedFloat} (hu : u.isNaN = false)
    (h : (UnpackedFloat.infinity .negative).lt u = false) : u = .infinity .negative := by
  cases u with
  | notANumber => cases hu
  | infinity s =>
    cases s with
    | positive => cases h
    | negative => rfl
  | zero s => cases h
  | finite s => cases s <;> cases h

/-- Is this the infinity of that sign? -/
def isInfinity : UnpackedFloat.Sign → UnpackedFloat → Bool
  | .positive, .infinity .positive => true
  | .negative, .infinity .negative => true
  | _, _ => false

theorem eq_of_isInfinity {s : UnpackedFloat.Sign} {u : UnpackedFloat} (h : isInfinity s u) :
    u = .infinity s := by
  unfold isInfinity at h
  split at h
  · rfl
  · rfl
  · cases h

/-! ### Doubles -/

variable {x y z : Float}

theorem less_iff : x < y ↔ x.toModel.unpack.lt y.toModel.unpack := by
  show decide (x.toModel < y.toModel) = true ↔ _
  rw [decide_eq_true_iff]
  rfl

theorem less_irrefl (x : Float) : ¬ x < x := by
  rw [less_iff]
  intro h
  have hx := (isNaN_of_lt h).1
  exact ((lt_iff_rank hx hx).1 h).ne rfl

theorem less_trans (hxy : x < y) (hyz : y < z) : x < z := by
  rw [less_iff] at hxy hyz ⊢
  obtain ⟨hx, hy⟩ := isNaN_of_lt hxy
  have hz := (isNaN_of_lt hyz).2
  rw [lt_iff_rank hx hy] at hxy
  rw [lt_iff_rank hy hz] at hyz
  exact (lt_iff_rank hx hz).2 (hxy.trans hyz)

/-- A double is told by what it is unpacked to. -/
theorem unpack_inj (h : x.toModel.unpack = y.toModel.unpack) : x = y :=
  Float.toBits_inj.1 (UInt64.toBitVec_inj.1
    ((UnpackedFloat.unpack_inj_of_valid x.toModel.valid y.toModel.valid).1 h))

theorem unpack_infinity : (1 / 0 : Float).toModel.unpack = .infinity .positive :=
  eq_of_isInfinity (by decide +kernel)

theorem unpack_neg_infinity : (-1 / 0 : Float).toModel.unpack = .infinity .negative :=
  eq_of_isInfinity (by decide +kernel)

/-- A number that is not below the upper infinity is this infinity. -/
theorem eq_infinity (hx : x.isNaN = false) (h : ¬ x < 1 / 0) : x = 1 / 0 := by
  rw [less_iff, unpack_infinity, Bool.not_eq_true] at h
  exact unpack_inj ((eq_infinity_of_not_lt hx h).trans unpack_infinity.symm)

/-- A number that is not above the lower infinity is this infinity. -/
theorem eq_neg_infinity (hx : x.isNaN = false) (h : ¬ -1 / 0 < x) : x = -1 / 0 := by
  rw [less_iff, unpack_neg_infinity, Bool.not_eq_true] at h
  exact unpack_inj ((eq_neg_infinity_of_not_lt hx h).trans unpack_neg_infinity.symm)

end Gridbook.Real
