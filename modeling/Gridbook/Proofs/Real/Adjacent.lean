/-
Gridbook/Proofs/Real/Adjacent.lean

The points nearest to close numbers.  What goes through 64 bits on its way to a double is
moved by a factor that is hardly above one.  The distance of two neighbouring points is
larger than this, so between the points that are nearest to two close numbers there is no
room for another one.

Main statements: above the nearest point of a number there is none below that of a number
that is hardly larger (`Nearest.not_between`), and the nearest points of close numbers are
neighbours or the same (`adjacent_of_close`).
-/
import Gridbook.Proofs.Real.Extended

namespace Gridbook.Real

/-! ### Neighbouring points -/

/-- A positive point of the grid by the largest step that has more than `2^52` of it. -/
structure IsNormal (k t : Nat) : Prop where
  pos : 0 < k
  le : k ≤ twoTo 53
  bound : t ≤ 2045
  lead : 0 < t → twoTo 52 < k

section

variable {n z : Int} {k t : Nat}

theorem exists_isNormal (hn : OnGrid n) (hpos : 0 < n) :
    ∃ k t, IsNormal k t ∧ n = (k * twoTo t : Nat) := by
  obtain ⟨m, s, hm, hs, hvalue⟩ := hn
  have hvalue : n = (m * twoTo s : Nat) := by omega
  induction s generalizing m with
  | zero =>
    have hm0 : 0 < m := by
      refine Nat.pos_of_ne_zero fun hzero => ?_
      rw [hvalue, hzero, Nat.zero_mul] at hpos
      exact absurd hpos (by decide)
    exact ⟨m, 0, ⟨hm0, hm, Nat.zero_le _, nofun⟩, hvalue⟩
  | succ s ih =>
    rcases Nat.lt_or_ge (twoTo 52) m with hlead | hless
    · exact ⟨m, s + 1, ⟨Nat.lt_of_le_of_lt (Nat.zero_le _) hlead, hm, hs, fun _ => hlead⟩, hvalue⟩
    · -- there is room for another bit
      have hdouble : m * twoTo (s + 1) = m * 2 * twoTo s := by
        rw [twoTo_succ]
        ring
      have hm2 : m * 2 ≤ twoTo 53 := by
        rw [twoTo_53]
        exact Nat.mul_le_mul_right 2 hless
      rw [hdouble] at hvalue
      exact ih (m * 2) hm2 (by omega) (by omega) hvalue

theorem IsNormal.onGrid_pred (h : IsNormal k t) : OnGrid ((k - 1 : Nat) * twoTo t : Nat) :=
  onGrid_mul (Nat.le_trans (Nat.sub_le k 1) h.le) h.bound

theorem IsNormal.pred_add (h : IsNormal k t) : (k - 1) * twoTo t + twoTo t = k * twoTo t := by
  rw [← Nat.succ_mul, Nat.succ_eq_add_one, Nat.sub_add_cancel h.pos]

/-- The next smaller point is one step below. -/
theorem IsNormal.le_pred (h : IsNormal k t) (hz : OnGrid z) (hlt : z < (k * twoTo t : Nat)) :
    z ≤ ((k - 1) * twoTo t : Nat) := by
  have hpred := h.pred_add
  rcases hz.dvd_or_le t with hdvd | ⟨hpos, hsmall⟩
  · have hmul : (twoTo t : Int) ∣ (k * twoTo t : Nat) :=
      Int.natCast_dvd_natCast.2 (Nat.dvd_mul_left _ _)
    have hgap := Int.le_of_dvd (by omega) (Int.dvd_sub hmul hdvd)
    omega
  · have hlead := h.lead hpos
    have hle : twoTo 52 * twoTo t ≤ (k - 1) * twoTo t := Nat.mul_le_mul_right _ (by omega)
    omega

/-- The larger of two points is `2^53` times as large as their distance at most. -/
theorem OnGrid.gap (hz : OnGrid z) (hn : OnGrid n) (hpos : 0 < n) (hlt : z < n) :
    n ≤ twoTo 53 * (n - z) := by
  obtain ⟨k, t, hnormal, rfl⟩ := exists_isNormal hn hpos
  have hle := hnormal.le_pred hz hlt
  have hpred := hnormal.pred_add
  have hstep : (twoTo t : Int) ≤ (k * twoTo t : Nat) - z := by omega
  calc ((k * twoTo t : Nat) : Int) ≤ (twoTo 53 * twoTo t : Nat) :=
        Int.ofNat_le.2 (Nat.mul_le_mul_right _ hnormal.le)
    _ = twoTo 53 * (twoTo t : Int) := by push_cast; rfl
    _ ≤ twoTo 53 * ((k * twoTo t : Nat) - z) :=
        Int.mul_le_mul_of_nonneg_left hstep (Int.natCast_nonneg _)

end

/-! ### Close numbers -/

/-- No point of the grid is strictly between the two. -/
def Adjacent (m n : Int) : Prop :=
  ∀ z, OnGrid z → ¬ (m < z ∧ z < n) ∧ ¬ (n < z ∧ z < m)

theorem Adjacent.neg {m n : Int} (h : Adjacent m n) : Adjacent (-m) (-n) := by
  intro z hz
  obtain ⟨hup, hdown⟩ := h (-z) hz.neg
  exact ⟨fun hbetween => hdown (by omega), fun hbetween => hup (by omega)⟩

/-- Above the nearest point of a number there is no other one below that of a number that
is hardly larger. -/
theorem Nearest.not_between {q r : ℚ} {m n z : Int} (h : Nearest q m) (h' : Nearest r n)
    (hq : 0 ≤ q) (hr : r ≤ q * (1 + 1 / 2 ^ 54)) (hz : OnGrid z) : ¬ (m < z ∧ z < n) := by
  rintro ⟨hlow, hhigh⟩
  have habove := h.above z hz hlow
  have hbelow := h'.below z hz hhigh
  have hlow' : (m : ℚ) < z := Int.cast_lt.2 hlow
  have hpos : (0 : ℚ) < z := by linarith
  have hzpos : 0 < z := Int.cast_pos.1 hpos
  have hgap : (n : ℚ) ≤ 2 ^ 53 * (n - z) := by
    have hint := hz.gap h'.onGrid (by omega) hhigh
    have hcast : ((n : Int) : ℚ) ≤ ((twoTo 53 : Nat) : ℚ) * (n - z) := by exact_mod_cast hint
    rwa [cast_twoTo] at hcast
  have hnz : (z : ℚ) < n := Int.cast_lt.2 hhigh
  linarith

theorem adjacent_of_close {q r : ℚ} {m n : Int} (h : Nearest q m) (h' : Nearest r n) (hq : 0 ≤ q)
    (hr : 0 ≤ r) {k : Nat} (hclose : Close k q r) (hk : k ≤ 400) : Adjacent m n := by
  have hslack : slack ^ 400 ≤ 1 + 1 / 2 ^ 54 := by
    have htwenty : slack ^ 20 ≤ 1 + 21 / 2 ^ 63 := by
      unfold slack
      norm_num
    calc slack ^ 400 = (slack ^ 20) ^ 20 := by rw [← pow_mul]
      _ ≤ (1 + 21 / 2 ^ 63) ^ 20 := pow_le_pow_left₀ (pow_nonneg slack_pos.le 20) htwenty 20
      _ ≤ 1 + 1 / 2 ^ 54 := by norm_num
  obtain ⟨hleft, hright⟩ := hclose.mono hq hr hk
  refine fun z hz => ⟨h.not_between h' hq ?_ hz, h'.not_between h hr ?_ hz⟩
  · exact hright.trans (mul_le_mul_of_nonneg_left hslack hq)
  · exact hleft.trans (mul_le_mul_of_nonneg_left hslack hr)

end Gridbook.Real
