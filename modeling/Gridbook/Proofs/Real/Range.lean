/-
Gridbook/Proofs/Real/Range.lean

Which quotients have a nearest double.  The largest double is half a step below
the power of two that would follow it, and from the middle of that step on a
quotient rounds to the power, which is no double.

Main statement: a quotient of naturals has a nearest double exactly below
`reach` (`ofRatio?_isSome_iff`), and so has an integer (`ofInt?_isSome_iff`).
-/
import Gridbook.Real.Ratio

namespace Gridbook.Real

/-- Half a step of the largest doubles below the power of two that follows
them. -/
def reach : Nat := twoTo 1024 - twoTo 970

/-! ### Rounding -/

theorem roundHalfEven_le (n d : Nat) : roundHalfEven n d ≤ n / d + 1 := by
  unfold roundHalfEven
  dsimp only
  split
  · omega
  split
  · omega
  split
  · omega
  · omega

theorem le_roundHalfEven (n d : Nat) : n / d ≤ roundHalfEven n d := by
  unfold roundHalfEven
  dsimp only
  split
  · omega
  split
  · omega
  split
  · omega
  · omega

/-- Above an odd quotient the middle of the step rounds up. -/
theorem roundHalfEven_of_odd {n d : Nat} (h : n / d % 2 = 1) :
    roundHalfEven n d = if 2 * (n % d) < d then n / d else n / d + 1 := by
  unfold roundHalfEven
  dsimp only
  split
  · rfl
  split
  · rfl
  · rw [if_neg (by omega)]

/-! ### The last double -/

theorem twoTo_le {m n : Nat} (h : m ≤ n) : twoTo m ≤ twoTo n :=
  Nat.pow_le_pow_right (by decide) h

/-- The scale of a quotient: it leaves 53 bits, if there are so many. -/
theorem scale_bounds {u den : Nat} (hden : 0 < den) {s : Nat} (hs : s = (u / den).log2 - 52) :
    u < twoTo 53 * (den * twoTo s) ∧ (0 < s → twoTo 52 * (den * twoTo s) ≤ u) := by
  have hpow : ∀ k, twoTo k * (den * twoTo s) = twoTo (s + k) * den := by
    intro k
    rw [show twoTo (s + k) = twoTo s * twoTo k from Nat.pow_add 2 s k, Nat.mul_left_comm,
      Nat.mul_comm (twoTo k) (twoTo s), Nat.mul_comm den]
  rw [hpow, hpow]
  constructor
  · have hlt : u / den < twoTo (s + 53) :=
      Nat.lt_of_lt_of_le Nat.lt_log2_self (twoTo_le (by omega))
    exact (Nat.div_lt_iff_lt_mul hden).1 hlt
  · intro hpos
    have hne : u / den ≠ 0 := by
      intro hzero
      rw [hzero] at hs
      simp at hs
      omega
    have hle : twoTo (s + 52) ≤ u / den :=
      Nat.le_trans (twoTo_le (by omega)) (Nat.log2_self_le hne)
    exact (Nat.le_div_iff_mul_le hden).1 hle

/-- The middle of the last step, in units of the smallest double. -/
theorem reach_mul_unitsPerOne : reach * unitsPerOne = (twoTo 54 - 1) * twoTo 2044 := by
  decide +kernel

theorem reach_pos : 0 < reach := by
  decide +kernel

theorem lt_reach_iff {num den : Nat} :
    num < reach * den ↔ num * unitsPerOne < (twoTo 54 - 1) * (den * twoTo 2044) := by
  have hunits : reach * den * unitsPerOne = (twoTo 54 - 1) * (den * twoTo 2044) := by
    rw [Nat.mul_right_comm, reach_mul_unitsPerOne, Nat.mul_right_comm, Nat.mul_assoc]
  rw [← hunits]
  exact (Nat.mul_lt_mul_right (twoTo_pos 1074)).symm

theorem nearestBits_lt_iff {num den : Nat} (hden : 0 < den) :
    nearestBits num den < infinityBits ↔ num < reach * den := by
  rw [lt_reach_iff]
  unfold nearestBits infinityBits
  dsimp only
  generalize num * unitsPerOne = u
  obtain ⟨hlt, hle⟩ := scale_bounds (u := u) hden rfl
  generalize hs : (u / den).log2 - 52 = s at hlt hle ⊢
  have hx : 0 < den * twoTo 2044 := Nat.mul_pos hden (twoTo_pos 2044)
  have hd : 0 < den * twoTo s := Nat.mul_pos hden (twoTo_pos s)
  have hquotient : u / (den * twoTo s) < twoTo 53 := (Nat.div_lt_iff_lt_mul hd).2 hlt
  have hlower := le_roundHalfEven u (den * twoTo s)
  have hupper := roundHalfEven_le u (den * twoTo s)
  have h52 : twoTo 52 = 4503599627370496 := rfl
  have h53 : twoTo 53 = 9007199254740992 := rfl
  have h54 : twoTo 54 = 18014398509481984 := rfl
  rw [h52] at hle
  rw [h53] at hlt hquotient
  rw [h52, h54]
  have hdouble : ∀ k, den * twoTo (k + 1) = 2 * (den * twoTo k) := by
    intro k
    rw [twoTo_succ, ← Nat.mul_assoc, Nat.mul_comm]
  rcases Nat.lt_trichotomy s 2045 with hsmall | rfl | hlarge
  · -- the step is not the last one
    have hscale : den * twoTo s ≤ den * twoTo 2044 :=
      Nat.mul_le_mul_left den (twoTo_le (by omega))
    omega
  · -- the step is the last one, and its last quotient is odd
    have hscale : den * twoTo 2045 = 2 * (den * twoTo 2044) := hdouble 2044
    rcases Nat.lt_or_ge (u / (den * twoTo 2045)) 9007199254740991 with hbelow | hlast
    · have hlt := (Nat.div_lt_iff_lt_mul hd).1 hbelow
      omega
    · have hlast : u / (den * twoTo 2045) = 9007199254740991 := by omega
      have hdivision := Nat.div_add_mod u (den * twoTo 2045)
      rw [roundHalfEven_of_odd (by rw [hlast]), hlast]
      rw [hlast] at hdivision
      split
      · omega
      · omega
  · -- the step is beyond the last one
    have hscale : den * twoTo 2046 ≤ den * twoTo s :=
      Nat.mul_le_mul_left den (twoTo_le hlarge)
    have hfour : den * twoTo 2046 = 2 * (den * twoTo 2045) := hdouble 2045
    have htwo : den * twoTo 2045 = 2 * (den * twoTo 2044) := hdouble 2044
    have hle := hle (by omega)
    have hquotient := (Nat.le_div_iff_mul_le hd).2 hle
    omega

/-- A quotient has a nearest double exactly below the reach of the doubles. -/
theorem ofRatio?_isSome_iff {negative : Bool} {num den : Nat} (hden : 0 < den) :
    (ofRatio? negative num den).isSome ↔ num < reach * den := by
  rw [← nearestBits_lt_iff hden]
  unfold ofRatio?
  dsimp only
  split
  · next h => exact ⟨fun _ => h, fun _ => rfl⟩
  · next h => exact ⟨nofun, fun hlt => absurd hlt h⟩

theorem ofInt?_isSome_iff {n : Int} : (ofInt? n).isSome ↔ n.natAbs < reach := by
  rw [ofInt?, ofRatio?_isSome_iff Nat.one_pos, Nat.mul_one]

theorem exists_ofInt?_iff {n : Int} : (∃ x, ofInt? n = some x) ↔ n.natAbs < reach := by
  rw [← ofInt?_isSome_iff, Option.isSome_iff_exists]

theorem ofInt?_eq_none_iff {n : Int} : ofInt? n = none ↔ reach ≤ n.natAbs := by
  rw [← Option.not_isSome_iff_eq_none, ofInt?_isSome_iff, Nat.not_lt]

/-- The quotient of an integer within reach by another one has a nearest double. -/
theorem quotient?_isSome {a b : Int} (ha : a.natAbs < reach) (hb : b ≠ 0) :
    (quotient? a b).isSome := by
  have hpos : 0 < b.natAbs := Int.natAbs_pos.2 hb
  rw [quotient?, ofRatio?_isSome_iff hpos]
  exact Nat.lt_of_lt_of_le ha (Nat.le_mul_of_pos_right reach hpos)

end Gridbook.Real
