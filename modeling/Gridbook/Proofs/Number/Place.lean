/-
Gridbook/Proofs/Number/Place.lean

Comparison of numbers by their levels.  A double is compared by its level, whether it is
finite or not, and a whole number by its multiple of the units.  Where a whole number is
first rounded to its closest double, comparison with a double changes only if this is the
other one (`Comparison.beyond_nearest_iff`).

Between the levels of close numbers there is no double, so a double that is none of the two
is on the same side of both (`Comparison.beyond_adjacent_iff`).
-/
import Gridbook.Filter
import Gridbook.Proofs.Real.Adjacent
import Gridbook.Store.Native

namespace Gridbook

open Gridbook.Real

/-! ### Places -/

namespace Number

variable {v x y : Float}

theorem compare_eq_lt_iff {a b : Number} : a.compare b = .lt ↔
    a.place.1 < b.place.1 ∨ a.place.1 = b.place.1 ∧ a.place.2 < b.place.2 := by
  unfold compare
  rw [Ordering.then_eq_lt, compare_lt_iff_lt, compare_eq_iff_eq, compare_lt_iff_lt]

theorem level_of_finite {negative : Bool} {m s : Nat} (h : parts x = .finite negative m s) :
    -(gridEnd : Int) < level x ∧ level x < gridEnd := by
  obtain ⟨hm, hs⟩ := parts_bounds h
  have hlt : m * twoTo s < gridEnd := by
    calc m * twoTo s < twoTo 53 * twoTo s := Nat.mul_lt_mul_of_pos_right hm (twoTo_pos s)
      _ ≤ twoTo 53 * twoTo 2045 := Nat.mul_le_mul_left _ (twoTo_le hs)
      _ = gridEnd := gridEnd_eq.symm
  rw [level_finite h]
  generalize m * twoTo s = n at hlt
  cases negative with
  | false =>
    show -(gridEnd : Int) < n ∧ (n : Int) < gridEnd
    omega
  | true =>
    show -(gridEnd : Int) < -(n : Int) ∧ -(n : Int) < gridEnd
    omega

/-- The place of a double by its level: an infinity is on its own side. -/
theorem place_real (hx : parts x ≠ .nan) :
    (real x).place = (0, level x) ∧ -(gridEnd : Int) < level x ∧ level x < gridEnd ∨
      (real x).place = (1, 0) ∧ level x = gridEnd ∨
      (real x).place = (-1, 0) ∧ level x = -gridEnd := by
  cases hparts : parts x with
  | nan => exact absurd hparts hx
  | infinite negative =>
    refine .inr ?_
    have hlevel := level_infinite hparts
    unfold place
    dsimp only
    rw [hparts, hlevel]
    cases negative with
    | false => exact .inl ⟨rfl, rfl⟩
    | true => exact .inr ⟨rfl, rfl⟩
  | finite negative m s =>
    refine .inl ⟨?_, level_of_finite hparts⟩
    unfold place level
    dsimp only
    rw [hparts]

/-- Doubles are compared by their levels. -/
theorem compare_real_iff (hx : parts x ≠ .nan) (hy : parts y ≠ .nan) :
    (real x).compare (real y) = .lt ↔ level x < level y := by
  have hend : 0 < gridEnd := by
    rw [gridEnd_eq]
    exact Nat.mul_pos (twoTo_pos 53) (twoTo_pos 2045)
  rw [compare_eq_lt_iff]
  rcases place_real hx with ⟨hp, hx⟩ | ⟨hp, hx⟩ | ⟨hp, hx⟩ <;>
    rcases place_real hy with ⟨hq, hy⟩ | ⟨hq, hy⟩ | ⟨hq, hy⟩ <;>
    rw [hp, hq] <;> dsimp only <;> omega

/-- Doubles of one level are at one place. -/
theorem place_congr (hx : parts x ≠ .nan) (hy : parts y ≠ .nan) (h : level x = level y) :
    (real x).place = (real y).place := by
  have hend : 0 < gridEnd := by
    rw [gridEnd_eq]
    exact Nat.mul_pos (twoTo_pos 53) (twoTo_pos 2045)
  rcases place_real hx with ⟨hp, hx⟩ | ⟨hp, hx⟩ | ⟨hp, hx⟩ <;>
    rcases place_real hy with ⟨hq, hy⟩ | ⟨hq, hy⟩ | ⟨hq, hy⟩ <;>
    first | omega | rw [hp, hq, h] | rw [hp, hq]

theorem place_finite (hv : isFinite v) : (real v).place = (0, level v) := by
  unfold isFinite at hv
  split at hv
  · next hparts =>
    unfold place level
    dsimp only
    rw [hparts]
  · cases hv

theorem parts_ne_nan_of_isFinite (hv : isFinite v) : parts v ≠ .nan := by
  intro hnan
  unfold isFinite at hv
  rw [hnan] at hv
  cases hv

end Number

/-! ### Sides -/

namespace Comparison

variable {op : Comparison} {v x : Float} {z m n : Int}

/-- Is the number on the side of `v` that the comparison asks for? -/
def Admits (op : Comparison) (v : Float) (n : Number) : Prop :=
  match op with
  | greater => (Number.real v).compare n = .lt
  | less => n.compare (.real v) = .lt
  | _ => False

/-- Is the level on the side of `z` that the comparison asks for? -/
def Beyond (op : Comparison) (z n : Int) : Prop :=
  match op with
  | greater => z < n
  | less => n < z
  | _ => False

theorem admits_real_iff (hv : parts v ≠ .nan) (hx : parts x ≠ .nan) :
    op.Admits v (.real x) ↔ op.Beyond (level v) (level x) := by
  cases op with
  | greater => exact Number.compare_real_iff hv hx
  | less => exact Number.compare_real_iff hx hv
  | equal => exact Iff.rfl
  | contains => exact Iff.rfl

theorem admits_whole_iff (hv : isFinite v) (n : Int) :
    op.Admits v (.whole n) ↔ op.Beyond (level v) (n * unitsPerOne) := by
  have hplace := Number.place_finite hv
  have hwhole : (Number.whole n).place = (0, n * unitsPerOne) := rfl
  cases op with
  | greater =>
    refine Number.compare_eq_lt_iff.trans ?_
    rw [hplace, hwhole]
    exact ⟨fun h => (h.resolve_left (lt_irrefl 0)).2, fun h => .inr ⟨rfl, h⟩⟩
  | less =>
    refine Number.compare_eq_lt_iff.trans ?_
    rw [hplace, hwhole]
    exact ⟨fun h => (h.resolve_left (lt_irrefl 0)).2, fun h => .inr ⟨rfl, h⟩⟩
  | equal => exact Iff.rfl
  | contains => exact Iff.rfl

/-- The nearest point of a number is on the side of another point where the number is, or it
is that point. -/
theorem beyond_nearest_iff (h : Nearest m n) (hz : OnGrid z) :
    op.Beyond z n ↔ op.Beyond z m ∧ z ≠ n := by
  cases op with
  | greater =>
    refine (h.lt_iff hz).trans ?_
    rw [Int.cast_lt]
    exact Iff.rfl
  | less =>
    refine (h.gt_iff hz).trans ?_
    rw [Int.cast_lt]
    exact Iff.rfl
  | equal => exact ⟨False.elim, fun h => h.1⟩
  | contains => exact ⟨False.elim, fun h => h.1⟩

/-- A point that is none of two neighbours is on the same side of both. -/
theorem beyond_adjacent_iff (h : Adjacent m n) (hz : OnGrid z) (hm : z ≠ m) (hn : z ≠ n) :
    op.Beyond z n ↔ op.Beyond z m := by
  obtain ⟨hup, hdown⟩ := h z hz
  cases op with
  | greater =>
    show z < n ↔ z < m
    omega
  | less =>
    show n < z ↔ m < z
    omega
  | equal => exact Iff.rfl
  | contains => exact Iff.rfl

end Comparison

/-! ### Whole numbers -/

namespace Native

/-- The double of a whole number is its closest one. -/
theorem nearest_realOf (n : Int) : Nearest ((n * unitsPerOne : Int) : ℚ) (level (realOf n)) := by
  unfold realOf
  by_cases hneg : n < 0
  · have hvalue : ((n * unitsPerOne : Int) : ℚ) = -(n.natAbs * unitsPerOne / (1 : Nat)) := by
      have habs : (n : ℚ) = -(n.natAbs : ℚ) := by
        have hint : n = -(n.natAbs : Int) := by omega
        rw [← Int.cast_natCast, ← Int.cast_neg, ← hint]
      rw [Int.cast_mul, habs, Nat.cast_one, div_one, neg_mul, Int.cast_natCast]
    rw [decide_eq_true hneg, hvalue]
    exact nearest_closest_neg n.natAbs Nat.one_pos
  · have hvalue : ((n * unitsPerOne : Int) : ℚ) = n.natAbs * unitsPerOne / (1 : Nat) := by
      have habs : (n : ℚ) = (n.natAbs : ℚ) := by
        have hint : n = (n.natAbs : Int) := by omega
        rw [← Int.cast_natCast, ← hint]
      rw [Int.cast_mul, habs, Nat.cast_one, div_one, Int.cast_natCast]
    rw [decide_eq_false hneg, hvalue]
    exact nearest_closest n.natAbs Nat.one_pos

/-- A whole number of 53 bits is its closest double. -/
theorem level_realOf {n : Int} (h : n.natAbs ≤ 2 ^ 53) : level (realOf n) = n * unitsPerOne := by
  refine (nearest_realOf n).eq_of_onGrid ⟨n.natAbs, 1074, h, by omega, ?_⟩ rfl
  rw [Int.natAbs_mul, Int.natAbs_natCast]
  rfl

/-- The double that a word is converted to. -/
theorem toReal?_of_fitsWord {n : Int} (h : fitsWord n) :
    (Number.whole n).toReal? = some (realOf n) := by
  have hlt : n.natAbs < reach := by
    have hword := fitsWord_iff.1 h
    have hreach : 2 ^ 63 < reach := by decide +kernel
    omega
  obtain ⟨x, hx⟩ := exists_ofInt?_iff.2 hlt
  have hsome : ofRatio? (n < 0) n.natAbs 1 = some x := hx
  have hreal : realOf n = x := by
    unfold realOf closest
    rw [hsome]
    rfl
  rw [hreal]
  exact hx

end Native

end Gridbook
