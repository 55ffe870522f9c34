/-
Gridbook/Proofs/Real/Middle.lean

Rounding twice.  A decimal that is rounded to 64 bits, and then to a double, may miss its
closest double.  It does so only where the number of 64 bits is the middle of two
neighbouring points and the decimal is not, but very near to it (`middle_of_rounded`).

A decimal with few digits is a multiple of a fraction that is too large for this.  With
five digits behind the point it is just small enough, but then what remains modulo four
tells that the even one of the two neighbours is the closest double (`level_middle`).  From
six digits on it does happen: 0.046032 is one of these decimals.

Main statement: a decimal of at most 18 digits, of which at most five are behind the
point, is rounded to its closest double (`level_toReal_div`).
-/
import Gridbook.Proofs.Real.Adjacent

namespace Gridbook.Real

/-! ### The middle of two neighbours -/

theorem cast_unitsPerOne : ((unitsPerOne : Nat) : ℚ) = 2 ^ (1074 : Int) := by
  unfold unitsPerOne
  rw [cast_twoTo]
  rfl

/-- The middle between a point and the one before it, as a number. -/
def middle (k t : Nat) : ℚ :=
  (2 * k - 1) * 2 ^ ((t : Int) - 1075)

/-- The middle in units of the smallest double. -/
theorem middle_mul_units (k t : Nat) : 2 * (middle k t * unitsPerOne) = (2 * k - 1) * 2 ^ t := by
  have hpower : (2 : ℚ) ^ ((t : Int) - 1075) * 2 ^ (1074 : Int) * 2 = 2 ^ t := by
    rw [← zpow_add₀ two_ne_zero, ← zpow_add_one₀ two_ne_zero, ← zpow_natCast]
    congr 1
    omega
  unfold middle
  rw [cast_unitsPerOne]
  linear_combination (2 * k - 1 : ℚ) * hpower

/-- The middle of two points separates what rounds to the one from what rounds to the
other. -/
theorem exists_middle {q r : ℚ} {z n : Int} (hq : Nearest (q * unitsPerOne) z)
    (hr : Nearest (r * unitsPerOne) n) (hlt : z < n) (hpos : 0 < n) :
    ∃ k t, IsNormal k t ∧ n = (k * twoTo t : Nat) ∧ q ≤ middle k t ∧ middle k t ≤ r := by
  obtain ⟨k, t, hnormal, hn⟩ := exists_isNormal hr.onGrid hpos
  have hunits : (0 : ℚ) < unitsPerOne := by
    rw [cast_unitsPerOne]
    exact zpow_pos two_pos _
  have hmiddle := middle_mul_units k t
  have hpred : (((k - 1) * twoTo t : Nat) : ℚ) + (k * twoTo t : Nat) = (2 * k - 1) * 2 ^ t := by
    rw [Nat.cast_mul, Nat.cast_mul, Nat.cast_sub hnormal.pos, cast_twoTo, Nat.cast_one]
    ring
  have hstep := hnormal.pred_add
  have htwo := twoTo_pos t
  refine ⟨k, t, hnormal, hn, ?_, ?_⟩
  · -- what rounds to the smaller one is below, as the point before is not beyond that
    have hle := hnormal.le_pred hq.onGrid (hn ▸ hlt)
    have habove : 2 * (q * unitsPerOne) ≤ ((((k - 1) * twoTo t : Nat) : Int) : ℚ) + (n : ℚ) := by
      rcases lt_or_eq_of_le hle with hless | heq
      · have hbetween := hq.above _ hnormal.onGrid_pred hless
        have hz : (z : ℚ) ≤ n := Int.cast_le.2 hlt.le
        linarith
      · have hbetween := hq.above _ hr.onGrid hlt
        rw [heq] at hbetween
        exact hbetween
    rw [hn, Int.cast_natCast, Int.cast_natCast, hpred, ← hmiddle] at habove
    exact le_of_mul_le_mul_right (by linarith) hunits
  · have hbelow := hr.below _ hnormal.onGrid_pred (by omega)
    rw [hn, Int.cast_natCast, Int.cast_natCast, hpred, ← hmiddle] at hbelow
    exact le_of_mul_le_mul_right (by linarith) hunits

/-! ### Rounded to 64 bits -/

namespace Extended

/-- A rounded quotient has its digits in units of its last bit. -/
theorem exists_digits {num den : Nat} (hnum : 0 < num) (hden : 0 < den) (e : Int) :
    ∃ (m : Nat) (w : Int), (nearest num den e).value = m * 2 ^ w ∧
      2 ^ 63 * 2 ^ w ≤ (num / den * 2 ^ e : ℚ) ∧
      |(nearest num den e).value - num / den * 2 ^ e| ≤ 2 ^ w / 2 := by
  refine ⟨(nearest num den e).m, lastBit num den + e, ?_, two_pow_lastBit_le hnum hden e,
    value_nearest hnum hden e⟩
  rw [nearest_eq hnum]
  rfl

end Extended

/-- Multiples of a power of two that are half of it apart at most are equal. -/
theorem eq_of_multiples {x y : ℚ} {a b w : Int} (hx : x = a * 2 ^ w) (hy : y = b * 2 ^ w)
    (h : |x - y| ≤ 2 ^ w / 2) : x = y := by
  have hw : (0 : ℚ) < 2 ^ w := zpow_pos two_pos w
  have hhalf : |((a - b : Int) : ℚ)| ≤ 1 / 2 := by
    rw [hx, hy, ← sub_mul, abs_mul, abs_of_pos hw] at h
    refine le_of_mul_le_mul_right ?_ hw
    push_cast
    linarith
  have hless : |((a - b : Int) : ℚ)| < 1 := by linarith
  have hzero : a - b = 0 := by
    rw [← Int.abs_lt_one_iff]
    exact_mod_cast hless
  rw [hx, hy, Int.sub_eq_zero.1 hzero]

/-- A middle has 54 bits: one that is as large as 64 bits at `w` has its last bit further up. -/
theorem lastBit_of_middle {k t : Nat} {w : Int} (hk : IsNormal k t)
    (hlow : (2 ^ 63 - 1 / 2) * 2 ^ w ≤ middle k t) : w + 10 ≤ (t : Int) - 1075 := by
  have hw : (0 : ℚ) < 2 ^ w := zpow_pos two_pos w
  have hdigits : (2 * k - 1 : ℚ) ≤ 2 ^ 54 - 1 := by
    have hle : (k : ℚ) ≤ 2 ^ 53 := by
      rw [← cast_twoTo]
      exact Nat.cast_le.2 hk.le
    linarith
  -- else it would be below the least number that has 64 bits at `w`
  by_contra hless
  have hpower : (2 : ℚ) ^ ((t : Int) - 1075) ≤ 2 ^ (w + 9) :=
    zpow_le_zpow_right₀ one_le_two (by omega)
  have hhigh : middle k t ≤ (2 ^ 54 - 1) * (2 ^ w * 2 ^ 9) := by
    calc middle k t ≤ (2 ^ 54 - 1) * 2 ^ ((t : Int) - 1075) :=
          mul_le_mul_of_nonneg_right hdigits (zpow_nonneg two_pos.le _)
      _ ≤ (2 ^ 54 - 1) * 2 ^ (w + 9) := mul_le_mul_of_nonneg_left hpower (by norm_num)
      _ = (2 ^ 54 - 1) * (2 ^ w * 2 ^ 9) := by
          rw [zpow_add₀ two_ne_zero]
          norm_num
  linarith

/-- A middle is a multiple of each power of two below its last bit. -/
theorem exists_multiple_of_middle {k t : Nat} {w : Int} (h : w ≤ (t : Int) - 1075) :
    ∃ a : Int, middle k t = a * 2 ^ w := by
  obtain ⟨j, hj⟩ : ∃ j : Nat, (t : Int) - 1075 = j + w := ⟨((t : Int) - 1075 - w).toNat, by omega⟩
  refine ⟨(2 * k - 1) * 2 ^ j, ?_⟩
  unfold middle
  rw [hj, zpow_add₀ two_ne_zero, zpow_natCast]
  push_cast
  ring

/-- A middle that a number crosses when it is rounded to 64 bits is what it is rounded to,
and it is very near. -/
theorem middle_of_rounded {q r : ℚ} {m k t : Nat} {w : Int} (hr : r = m * 2 ^ w)
    (hlead : 2 ^ 63 * 2 ^ w ≤ q) (hhalf : |r - q| ≤ 2 ^ w / 2) (hk : IsNormal k t)
    (hbetween : q ≤ middle k t ∧ middle k t ≤ r ∨ r ≤ middle k t ∧ middle k t ≤ q) :
    r = middle k t ∧ 2 ^ 11 * |r - q| ≤ 2 ^ ((t : Int) - 1075) := by
  have hdist := abs_le.1 hhalf
  have hnear : |r - middle k t| ≤ 2 ^ w / 2 := by
    rw [abs_le]
    rcases hbetween with ⟨h, h'⟩ | ⟨h, h'⟩
    · constructor
      · linarith
      · linarith
    · constructor
      · linarith
      · linarith
  have hlow : (2 ^ 63 - 1 / 2) * 2 ^ w ≤ middle k t := by
    rcases hbetween with ⟨h, h'⟩ | ⟨h, h'⟩
    · linarith
    · linarith
  have hbits : w + 10 ≤ (t : Int) - 1075 := lastBit_of_middle hk hlow
  constructor
  · obtain ⟨a, ha⟩ := exists_multiple_of_middle (k := k) (by omega : w ≤ (t : Int) - 1075)
    exact eq_of_multiples (a := m) (by rw [hr, Int.cast_natCast]) ha hnear
  · calc 2 ^ 11 * |r - q| ≤ 2 ^ 11 * (2 ^ w / 2) := mul_le_mul_of_nonneg_left hhalf (by norm_num)
      _ = 2 ^ (w + 10) := by
          rw [zpow_add₀ two_ne_zero]
          norm_num
          ring
      _ ≤ 2 ^ ((t : Int) - 1075) := zpow_le_zpow_right₀ one_le_two hbits

/-! ### The even neighbour -/

theorem roundHalfEven_odd (k : Nat) :
    roundHalfEven (2 * k + 1) 2 = if k % 2 = 0 then k else k + 1 := by
  have hdiv : (2 * k + 1) / 2 = k := by omega
  have hmod : (2 * k + 1) % 2 = 1 := by omega
  unfold roundHalfEven
  simp only [hdiv, hmod]
  rfl

/-- A middle is rounded to its even neighbour. -/
theorem level_middle {num den k t : Nat} (hden : 0 < den) (hk : IsNormal k t) (ht : 0 < t)
    (hvalue : (num / den : ℚ) = middle k t) :
    level (closest false num den) = ((if k % 2 = 0 then k else k - 1) * twoTo t : Nat) := by
  obtain ⟨j, rfl⟩ : ∃ j, k = j + 1 := ⟨k - 1, (Nat.sub_add_cancel hk.pos).symm⟩
  have hlead := hk.lead ht
  have hle := hk.le
  -- the quotient is `j` steps and a half
  have hsteps : num * unitsPerOne * 2 = (2 * j + 1) * (den * twoTo t) := by
    have hden' : (den : ℚ) ≠ 0 := Nat.cast_ne_zero.2 (Nat.ne_of_gt hden)
    have hunits := middle_mul_units (j + 1) t
    have hcast : (num * unitsPerOne * 2 : ℚ) = (2 * j + 1) * (den * 2 ^ t) := by
      rw [← hvalue] at hunits
      push_cast at hunits
      field_simp at hunits
      linear_combination hunits
    rw [← cast_twoTo] at hcast
    exact_mod_cast hcast
  have hscale : IsScale num den t := by
    constructor
    · have hup : (2 * j + 1) * (den * twoTo t) < twoTo 53 * 2 * (den * twoTo t) :=
        Nat.mul_lt_mul_of_pos_right (by omega) (Nat.mul_pos hden (twoTo_pos t))
      refine Nat.lt_of_mul_lt_mul_right (a := 2) ?_
      rwa [hsteps, Nat.mul_right_comm]
    · intro _
      refine Nat.le_of_mul_le_mul_right ?_ Nat.two_pos
      rw [hsteps, Nat.mul_right_comm]
      exact Nat.mul_le_mul_right _ (by omega)
  have hdigits : digitsAt num den t = if j % 2 = 0 then j else j + 1 := by
    rw [← roundHalfEven_odd]
    exact roundHalfEven_congr (Nat.mul_pos hden (twoTo_pos t)) Nat.two_pos hsteps
  have hparity : (if (j + 1) % 2 = 0 then j + 1 else j + 1 - 1) =
      if j % 2 = 0 then j else j + 1 := by
    split <;> split <;> omega
  rw [level_closest false hden hscale, if_pos hk.bound, hdigits, hparity]
  rfl

/-! ### Short decimals -/

/-- The decimal is a near neighbour of the middle: the first eleven bits below the step are
the same. -/
structure IsNear (d e k t : Nat) : Prop where
  normal : IsNormal k t
  near : 2 ^ 11 * |middle k t - d / 10 ^ e| ≤ 2 ^ ((t : Int) - 1075)

section

variable {d e k t : Nat}

theorem IsNear.dist_le (h : IsNear d e k t) :
    |middle k t - d / 10 ^ e| ≤ 2 ^ ((t : Int) - 1075) / 2 ^ 11 := by
  rw [le_div_iff₀ (by norm_num), mul_comm]
  exact h.near

/-- The middles of the smallest steps are much too small for a decimal with few digits
behind the point. -/
theorem IsNear.pos (h : IsNear d e k t) (hd : 0 < d) (he : e ≤ 5) : 0 < t := by
  by_contra hzero
  obtain rfl : t = 0 := by omega
  have hdist := abs_le.1 h.dist_le
  have hdigits : (2 * k - 1 : ℚ) ≤ 2 ^ 54 := by
    have hle : (k : ℚ) ≤ 2 ^ 53 := by
      rw [← cast_twoTo]
      exact Nat.cast_le.2 h.normal.le
    linarith
  have hpower : (2 : ℚ) ^ (((0 : Nat) : Int) - 1075) ≤ 2 ^ (-100 : Int) :=
    zpow_le_zpow_right₀ one_le_two (by norm_num)
  have hmiddle : middle k 0 ≤ 2 ^ 54 * 2 ^ (-100 : Int) :=
    mul_le_mul hdigits hpower (zpow_nonneg two_pos.le _) (by norm_num)
  have hlow : (1 / 10 ^ 5 : ℚ) ≤ d / 10 ^ e :=
    div_le_div₀ (Nat.cast_nonneg d) (by exact_mod_cast hd) (pow_pos (by norm_num) e)
      (pow_le_pow_right₀ (by norm_num) he)
  generalize (2 : ℚ) ^ (((0 : Nat) : Int) - 1075) = v at hdist hpower
  norm_num at hmiddle hpower hlow
  linarith

/-- The step of the middle in units of a power of two below it. -/
theorem step_eq {i j : Nat} (hij : (t : Int) - 1075 + e = i - j) :
    (2 : ℚ) ^ ((t : Int) - 1075) * (10 ^ e * 2 ^ j) = 2 ^ i * 5 ^ e := by
  have htwo : (2 : ℚ) ≠ 0 := two_ne_zero
  have hpow : (10 : ℚ) ^ e = 2 ^ e * 5 ^ e := by
    rw [← mul_pow]
    norm_num
  have hsum : (2 : ℚ) ^ ((t : Int) - 1075) * 2 ^ e * 2 ^ j = 2 ^ i := by
    rw [← zpow_natCast, ← zpow_natCast, ← zpow_natCast, ← zpow_add₀ htwo, ← zpow_add₀ htwo]
    congr 1
    omega
  rw [hpow, ← hsum]
  ring

/-- The step of a middle beside a decimal of at most 18 digits has seven bits at most before
the last digit. -/
theorem IsNear.step_lt (h : IsNear d e k t) (hpos : 0 < t) (hlt : d < 10 ^ 18) {i j : Nat}
    (hij : (t : Int) - 1075 + e = i - j) : 2 ^ i * 5 ^ e < 2 ^ 7 * 2 ^ j := by
  have hten : (0 : ℚ) < 10 ^ e := pow_pos (by norm_num) e
  have hdist := abs_le.1 h.dist_le
  have hlead : (2 ^ 52 + 1 : ℚ) ≤ k := by
    have hnat : twoTo 52 + 1 ≤ k := h.normal.lead hpos
    have hcast : ((twoTo 52 + 1 : Nat) : ℚ) ≤ k := Nat.cast_le.2 hnat
    rwa [Nat.cast_add, cast_twoTo, Nat.cast_one] at hcast
  have hmiddle : (2 ^ 53 + 1) * 2 ^ ((t : Int) - 1075) ≤ middle k t :=
    mul_le_mul_of_nonneg_right (by linarith) (zpow_nonneg two_pos.le _)
  have hv : (0 : ℚ) < 2 ^ ((t : Int) - 1075) := zpow_pos two_pos _
  have hquotient : 2 ^ 53 * 2 ^ ((t : Int) - 1075) ≤ (d / 10 ^ e : ℚ) := by linarith
  rw [le_div_iff₀ hten] at hquotient
  have hdlt : (d : ℚ) < 10 ^ 18 := by exact_mod_cast hlt
  have hless : (2 : ℚ) ^ ((t : Int) - 1075) * 10 ^ e < 2 ^ 7 := by linarith
  have hcast : (2 ^ i * 5 ^ e : ℚ) < 2 ^ 7 * 2 ^ j := by
    rw [← step_eq hij, ← mul_assoc]
    exact mul_lt_mul_of_pos_right hless (pow_pos two_pos j)
  exact_mod_cast hcast

/-- In units of a power of two below the step, the middle and the decimal are whole numbers
that differ by a small part of the step. -/
theorem IsNear.scaled (h : IsNear d e k t) {i j : Nat} (hij : (t : Int) - 1075 + e = i - j) :
    10 ^ e * 2 ^ j * (middle k t - d / 10 ^ e) =
        (((2 * k - 1 : Int) * (2 ^ i * 5 ^ e) - d * 2 ^ j : Int) : ℚ) ∧
      2 ^ 11 * |((2 * k - 1 : Int) * (2 ^ i * 5 ^ e) - d * 2 ^ j : Int)| ≤ 2 ^ i * 5 ^ e := by
  have hten : (0 : ℚ) < 10 ^ e * 2 ^ j := by positivity
  have hdiff : 10 ^ e * 2 ^ j * (middle k t - d / 10 ^ e) =
      (((2 * k - 1 : Int) * (2 ^ i * 5 ^ e) - d * 2 ^ j : Int) : ℚ) := by
    unfold middle
    push_cast
    rw [← step_eq hij]
    field_simp
  refine ⟨hdiff, ?_⟩
  have hcast : 2 ^ 11 * |(((2 * k - 1 : Int) * (2 ^ i * 5 ^ e) - d * 2 ^ j : Int) : ℚ)| ≤
      2 ^ i * 5 ^ e := by
    rw [← hdiff, abs_mul, abs_of_pos hten, ← step_eq hij]
    calc 2 ^ 11 * (10 ^ e * 2 ^ j * |middle k t - d / 10 ^ e|)
        = 2 ^ 11 * |middle k t - d / 10 ^ e| * (10 ^ e * 2 ^ j) := by ring
      _ ≤ 2 ^ ((t : Int) - 1075) * (10 ^ e * 2 ^ j) := mul_le_mul_of_nonneg_right h.near hten.le
  exact_mod_cast hcast

/-- With less than five digits behind the point there is no small difference at all; with
five it is one last digit, and its side is told by the parity. -/
theorem parity_of_small {j : Nat} {n : Int} (he : e ≤ 5) (hstep : 5 ^ e < 2 ^ 7 * 2 ^ j)
    (hn : (2 * k - 1 : Int) * 5 ^ e - d * 2 ^ j = n) (hsmall : 2 ^ 11 * |n| ≤ 5 ^ e)
    (hzero : n ≠ 0) : n = 1 ∧ k % 2 = 1 ∨ n = -1 ∧ k % 2 = 0 := by
  have hone : 1 ≤ |n| := Int.one_le_abs hzero
  obtain rfl : e = 5 := by
    by_contra hless
    have hfour : (5 : Int) ^ e ≤ 5 ^ 4 := pow_le_pow_right₀ (by norm_num) (by omega)
    omega
  have hn1 : n = 1 ∨ n = -1 := by
    rcases abs_cases n with ⟨h1, -⟩ | ⟨h1, -⟩
    · omega
    · omega
  have hj : 2 ≤ j := by
    by_contra hless
    have hpow : 2 ^ j ≤ 2 ^ 1 := Nat.pow_le_pow_right (by norm_num) (by omega)
    omega
  obtain ⟨l, rfl⟩ := Nat.exists_eq_add_of_le' hj
  have hmod : 2 * (k : Int) + 4 * (1562 * k - d * 2 ^ l) = n + 3125 := by
    rw [← hn]
    ring
  generalize (1562 * k - d * 2 ^ l : Int) = c at hmod
  rcases hn1 with rfl | rfl
  · exact .inl ⟨rfl, by omega⟩
  · exact .inr ⟨rfl, by omega⟩

/-- A decimal of at most 18 digits, of which at most five are behind the point, is no
middle's near neighbour, but for one on the side of the even point. -/
theorem IsNear.parity (h : IsNear d e k t) (hd : 0 < d) (hlt : d < 10 ^ 18) (he : e ≤ 5)
    (hne : middle k t ≠ d / 10 ^ e) :
    d / 10 ^ e < middle k t ∧ k % 2 = 1 ∨ middle k t < d / 10 ^ e ∧ k % 2 = 0 := by
  obtain ⟨i, j, hij, hone⟩ : ∃ i j : Nat, (t : Int) - 1075 + e = i - j ∧ (i = 0 ∨ j = 0) :=
    ⟨((t : Int) - 1075 + e).toNat, (-((t : Int) - 1075 + e)).toNat, by omega, by omega⟩
  have hstep := h.step_lt (h.pos hd he) hlt hij
  obtain ⟨hdiff, hsmall⟩ := h.scaled hij
  have hunit : (0 : ℚ) < 10 ^ e * 2 ^ j := by positivity
  generalize hn : (2 * k - 1 : Int) * (2 ^ i * 5 ^ e) - d * 2 ^ j = n at hdiff hsmall
  have hzero : n ≠ 0 := by
    rintro rfl
    rw [Int.cast_zero] at hdiff
    exact hne (sub_eq_zero.1 ((mul_eq_zero.1 hdiff).resolve_left hunit.ne'))
  rcases hone with rfl | rfl
  · rw [pow_zero, one_mul] at hstep hsmall hn
    refine (parity_of_small he hstep hn hsmall hzero).imp ?_ ?_
    · rintro ⟨rfl, hodd⟩
      rw [Int.cast_one] at hdiff
      exact ⟨sub_pos.1 (pos_of_mul_pos_right (hdiff ▸ one_pos) hunit.le), hodd⟩
    · rintro ⟨rfl, heven⟩
      refine ⟨not_le.1 fun hle => ?_, heven⟩
      have hnonneg := mul_nonneg hunit.le (sub_nonneg.2 hle)
      rw [hdiff] at hnonneg
      norm_num at hnonneg
  · -- the middle is a whole number of last digits
    have hstep' : (2 ^ i * 5 ^ e : Int) < 2 ^ 7 * 2 ^ 0 := by exact_mod_cast hstep
    have hone : 1 ≤ |n| := Int.one_le_abs hzero
    exfalso
    clear hdiff hunit hn
    generalize (2 ^ i * 5 ^ e : Int) = p at *
    omega

/-- A decimal of at most 18 digits, of which at most five are behind the point, has the
closest double of the number of 64 bits that it is rounded to. -/
theorem level_closest_of_rounded {num den m : Nat} {w : Int} (hden : 0 < den)
    (hvalue : (num / den : ℚ) = m * 2 ^ w) (hlead : 2 ^ 63 * 2 ^ w ≤ (d / 10 ^ e : ℚ))
    (hhalf : |(num / den : ℚ) - d / 10 ^ e| ≤ 2 ^ w / 2) (hd : 0 < d) (hlt : d < 10 ^ 18)
    (he : e ≤ 5) : level (closest false num den) = level (closest false d (tenTo e)) := by
  have hten : ((tenTo e : Nat) : ℚ) = 10 ^ e := Nat.cast_pow 10 e
  have hr := nearest_closest num hden
  have hq := nearest_closest d (tenTo_pos e)
  rw [mul_div_right_comm] at hr hq
  rw [hten] at hq
  by_cases hexact : (num / den : ℚ) = d / 10 ^ e
  · refine congrArg level (closest_congr false hden (tenTo_pos e) ?_)
    have hden' : (den : ℚ) ≠ 0 := Nat.cast_ne_zero.2 (Nat.ne_of_gt hden)
    rw [← hten, div_eq_div_iff hden' (Nat.cast_ne_zero.2 (Nat.ne_of_gt (tenTo_pos e)))] at hexact
    exact_mod_cast hexact
  -- else they are on two sides of a middle, the one on it and the other one very near
  have hzero : ∀ n : Nat, (0 : ℚ) ≤ n := fun n => Nat.cast_nonneg n
  have hlow := hr.nonneg (mul_nonneg (div_nonneg (hzero num) (hzero den)) (hzero _))
  have hlow' := hq.nonneg (mul_nonneg (div_nonneg (hzero d) (pow_nonneg (by norm_num) e)) (hzero _))
  rcases lt_trichotomy (level (closest false num den)) (level (closest false d (tenTo e)))
    with hless | heq | hless
  · obtain ⟨k, t, hk, hlevel, hbelow, habove⟩ := exists_middle hr hq hless (by omega)
    obtain ⟨hmiddle, hnear⟩ := middle_of_rounded hvalue hlead hhalf hk (.inr ⟨hbelow, habove⟩)
    rw [hmiddle] at hnear hexact
    have hside : IsNear d e k t := ⟨hk, hnear⟩
    rcases hside.parity hd hlt he hexact with ⟨hbeyond, -⟩ | ⟨-, heven⟩
    · exact absurd habove (not_le.2 hbeyond)
    · rw [level_middle hden hk (hside.pos hd he) hmiddle, if_pos heven] at hless
      exact absurd hless (by omega)
  · exact heq
  · obtain ⟨k, t, hk, hlevel, hbelow, habove⟩ := exists_middle hq hr hless (by omega)
    obtain ⟨hmiddle, hnear⟩ := middle_of_rounded hvalue hlead hhalf hk (.inl ⟨hbelow, habove⟩)
    rw [hmiddle] at hnear hexact
    have hside : IsNear d e k t := ⟨hk, hnear⟩
    rcases hside.parity hd hlt he hexact with ⟨-, hodd⟩ | ⟨hbeyond, -⟩
    · rw [level_middle hden hk (hside.pos hd he) hmiddle, if_neg (by omega)] at hlevel
      have hpred := hk.pred_add
      have htwo := twoTo_pos t
      exact absurd hlevel (by omega)
    · exact absurd hbelow (not_le.2 hbeyond)

end

namespace Extended

/-- The powers of ten that go with few digits are exact. -/
theorem value_powerOfTen {e : Nat} (he : e ≤ 5) : (powerOfTen e).value = 10 ^ e := by
  have hexact : ∀ e < 6, scaled (powerOfTen e).m (powerOfTen e).e =
      10 ^ e * twoTo (-(powerOfTen e).e).toNat := by decide +kernel
  have hcast : (scaled (powerOfTen e).m (powerOfTen e).e : ℚ) =
      10 ^ e * (twoTo (-(powerOfTen e).e).toNat : Nat) := by exact_mod_cast hexact e (by omega)
  rw [value_eq, hcast, mul_div_cancel_right₀ _ (Nat.cast_ne_zero.2 (Nat.ne_of_gt (twoTo_pos _)))]

theorem value_pos_iff {a : Extended} : 0 < a.value ↔ 0 < a.m := by
  unfold value
  rw [mul_pos_iff_of_pos_right (zpow_pos two_pos _), Nat.cast_pos]

/-- A decimal of at most 18 digits, of which at most five are behind the point, is read as
its closest double. -/
theorem level_toReal_div {d e : Nat} (hd : 0 < d) (hlt : d < 10 ^ 18) (he : e ≤ 5) :
    level (((ofNat d).div (powerOfTen e)).toReal false) = level (closest false d (tenTo e)) := by
  have hpower := value_powerOfTen he
  have hnum : 0 < (ofNat d).m := hd
  have hden : 0 < (powerOfTen e).m := value_pos_iff.1 (hpower ▸ pow_pos (by norm_num) e)
  have hquotient : ((ofNat d).m : ℚ) / (powerOfTen e).m * 2 ^ ((ofNat d).e - (powerOfTen e).e) =
      d / 10 ^ e := by
    rw [← hpower]
    unfold value ofNat
    rw [zero_sub, zpow_neg, div_mul_eq_div_div, div_eq_mul_inv (_ / _)]
  obtain ⟨m, w, hvalue, hlead, hhalf⟩ := exists_digits hnum hden ((ofNat d).e - (powerOfTen e).e)
  have hdef : (ofNat d).div (powerOfTen e) =
      nearest (ofNat d).m (powerOfTen e).m ((ofNat d).e - (powerOfTen e).e) := rfl
  rw [hquotient] at hlead hhalf
  rw [← hdef, value_eq] at hvalue hhalf
  exact level_closest_of_rounded (twoTo_pos _) hvalue hlead hhalf hd hlt he

/-- So is a whole number of at most 18 digits. -/
theorem level_toReal_mul {d : Nat} (hd : 0 < d) (hlt : d < 10 ^ 18) :
    level (((ofNat d).mul (powerOfTen 0)).toReal false) = level (closest false d (tenTo 0)) := by
  have hdef : (ofNat d).mul (powerOfTen 0) = nearest (d * 1) 1 0 := rfl
  have hnum : 0 < d * 1 := by rwa [Nat.mul_one]
  have hquotient : ((d * 1 : Nat) : ℚ) / (1 : Nat) * 2 ^ (0 : Int) = d / 10 ^ 0 := by
    rw [Nat.mul_one, Nat.cast_one, zpow_zero, pow_zero, mul_one]
  obtain ⟨m, w, hvalue, hlead, hhalf⟩ := exists_digits hnum Nat.one_pos 0
  rw [hquotient] at hlead hhalf
  rw [value_eq] at hvalue hhalf
  rw [hdef]
  exact level_closest_of_rounded (twoTo_pos _) hvalue hlead hhalf hd hlt (Nat.zero_le 5)

end Extended

end Gridbook.Real
