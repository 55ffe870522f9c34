/-
Gridbook/Proofs/Real/Shortest.lean

The digits that read back.  A double is written by a decimal of the interval of the reals
that round to it, ends included where its last bit is even, and such a decimal has the
double for its closest one (`level_closest_of_admits`).

The search for the digits goes up to seventeen, and it does not come that far in vain: the
decimals of seventeen digits are less than a step of the doubles apart, and below a power
of two less than half a step, so one of the two around the double lies in its interval
(`exists_withDigits?`).

Main statement: the closest double of the decimal that a double is written by is the double
(`level_closest_shortest`).
-/
import Gridbook.Proofs.Real.Decimal
import Gridbook.Real.Digits

namespace Gridbook.Real

/-! ### Numbers that round to a double -/

/-- A quotient is rounded to a number that is less than half away, and to one that is half
away if this is even. -/
theorem roundHalfEven_eq {n d m : Nat} (hd : 0 < d) (hlow : 2 * (m * d) ≤ 2 * n + d)
    (hhigh : 2 * n ≤ 2 * (m * d) + d)
    (hodd : m % 2 = 1 → 2 * (m * d) ≠ 2 * n + d ∧ 2 * n ≠ 2 * (m * d) + d) :
    roundHalfEven n d = m := by
  have hdiv := Nat.div_add_mod n d
  have hmod := Nat.mod_lt n hd
  rw [Nat.mul_comm] at hdiv
  unfold roundHalfEven
  dsimp only
  generalize n / d = q at hdiv ⊢
  generalize n % d = r at hdiv hmod ⊢
  rcases Nat.lt_trichotomy q m with hlt | rfl | hlt
  · -- the number is the next one, and the rest is half or more
    obtain ⟨k, rfl⟩ := Nat.exists_eq_add_of_le (Nat.succ_le_of_lt hlt)
    have hk : k * d = 0 := by
      rcases Nat.eq_zero_or_pos k with rfl | hk
      · exact Nat.zero_mul d
      · have hstep : d ≤ k * d := Nat.le_mul_of_pos_left d hk
        simp only [Nat.succ_eq_add_one, Nat.add_mul, Nat.one_mul] at hlow
        omega
    have hzero : k = 0 := (Nat.mul_eq_zero.1 hk).resolve_right (by omega)
    subst hzero
    simp only [Nat.succ_eq_add_one, Nat.add_mul, Nat.one_mul] at hlow hhigh hodd
    split
    · omega
    split
    · rfl
    · split <;> omega
  · split
    · rfl
    split
    · omega
    · split <;> omega
  · have hstep : (m + 1) * d ≤ q * d := Nat.mul_le_mul_right d hlt
    rw [Nat.add_mul, Nat.one_mul] at hstep
    omega

/-- A quotient is in the interval of a double; its ends are left out if it is open. -/
theorem Rounding.admits_iff {r : Rounding} {num den : Nat} :
    r.admits num den ↔ r.low * den ≤ num * r.den ∧ num * r.den ≤ r.high * den ∧
      (r.closed = false → r.low * den ≠ num * r.den ∧ num * r.den ≠ r.high * den) := by
  unfold admits
  cases r.closed with
  | true => simp
  | false =>
    rw [if_neg Bool.false_ne_true, Bool.and_eq_true, decide_eq_true_eq, decide_eq_true_eq]
    constructor
    · exact fun h => ⟨h.1.le, h.2.le, fun _ => ⟨h.1.ne, h.2.ne⟩⟩
    · rintro ⟨hlow, hhigh, hinner⟩
      have hinner := hinner rfl
      omega

section

variable {m s num den : Nat}

/-- How far the interval of a double goes, in quarters of its step: two of them to either
side, but only one down from a power of two, and the ends belong to it if the last bit is
even. -/
theorem admits_ofParts_iff (hm : 0 < m) : (Rounding.ofParts m s).admits num den ↔
    4 * (m * (den * twoTo s)) ≤ 4 * (num * unitsPerOne) +
        (if m = twoTo 52 ∧ 0 < s then 1 else 2) * (den * twoTo s) ∧
      4 * (num * unitsPerOne) ≤ 4 * (m * (den * twoTo s)) + 2 * (den * twoTo s) ∧
      (m % 2 = 1 → 4 * (m * (den * twoTo s)) ≠ 4 * (num * unitsPerOne) +
          (if m = twoTo 52 ∧ 0 < s then 1 else 2) * (den * twoTo s) ∧
        4 * (num * unitsPerOne) ≠ 4 * (m * (den * twoTo s)) + 2 * (den * twoTo s)) := by
  have hunits : num * (Rounding.ofParts m s).den = 4 * (num * unitsPerOne) := by
    show num * (4 * unitsPerOne) = _
    ring
  have hhigh : (Rounding.ofParts m s).high * den =
      4 * (m * (den * twoTo s)) + 2 * (den * twoTo s) := by
    show (4 * m + 2) * twoTo s * den = _
    ring
  have hlow : (Rounding.ofParts m s).low * den +
      (if m = twoTo 52 ∧ 0 < s then 1 else 2) * (den * twoTo s) = 4 * (m * (den * twoTo s)) := by
    have hle : (if m = twoTo 52 ∧ 0 < s then 1 else 2) ≤ 4 * m := by
      split <;> omega
    show (4 * m - if m = twoTo 52 ∧ 0 < s then 1 else 2) * twoTo s * den + _ = _
    generalize (if m = twoTo 52 ∧ 0 < s then 1 else 2) = down at hle ⊢
    calc (4 * m - down) * twoTo s * den + down * (den * twoTo s)
        = (4 * m - down + down) * (den * twoTo s) := by ring
      _ = 4 * (m * (den * twoTo s)) := by rw [Nat.sub_add_cancel hle, Nat.mul_assoc]
  have hclosed : (Rounding.ofParts m s).closed = false ↔ m % 2 = 1 := by
    show decide (m % 2 = 0) = false ↔ _
    rw [decide_eq_false_iff_not]
    omega
  rw [Rounding.admits_iff, hunits, hhigh, hclosed, ← hlow]
  omega

/-- A quotient in the interval of a double has this for its closest one. -/
theorem level_closest_of_admits (negative : Bool) (hden : 0 < den) (hpos : 0 < m)
    (hm : m < twoTo 53) (hs : s ≤ 2045) (hlead : 0 < s → twoTo 52 ≤ m)
    (h : (Rounding.ofParts m s).admits num den) :
    level (closest negative num den) = signedBy negative (m * twoTo s) := by
  have h52 : twoTo 52 = 4503599627370496 := rfl
  have h53 : twoTo 53 = 9007199254740992 := rfl
  have hstep : 0 < den * twoTo s := Nat.mul_pos hden (twoTo_pos s)
  obtain ⟨hlow, hhigh, hinner⟩ := (admits_ofParts_iff hpos).1 h
  have hfew : m * (den * twoTo s) + den * twoTo s ≤ twoTo 53 * (den * twoTo s) := by
    rw [← Nat.succ_mul]
    exact Nat.mul_le_mul_right _ hm
  by_cases hsame : 0 < s → twoTo 52 * (den * twoTo s) ≤ num * unitsPerOne
  · -- the quotient is rounded by the step of the double
    have hscale : IsScale num den s := ⟨by omega, hsame⟩
    have hdigits : digitsAt num den s = m := by
      refine roundHalfEven_eq hstep ?_ (by omega) fun hodd => ?_
      · split at hlow <;> omega
      · have hinner := hinner hodd
        split at hlow
        · next hpower =>
          rw [if_pos hpower] at hinner
          omega
        · next hpower =>
          rw [if_neg hpower] at hinner
          omega
    rw [level_closest negative hden hscale, if_pos hs, hdigits]
  · -- it is below a power of two, where the step is half of that
    push Not at hsame
    obtain ⟨hspos, hless⟩ := hsame
    have hpower : m = twoTo 52 := by
      by_contra hne
      have hmore : twoTo 52 * (den * twoTo s) + den * twoTo s ≤ m * (den * twoTo s) := by
        rw [← Nat.succ_mul]
        exact Nat.mul_le_mul_right _ (Nat.lt_of_le_of_ne (hlead hspos) (Ne.symm hne))
      split at hlow <;> omega
    obtain ⟨t, rfl⟩ := Nat.exists_eq_succ_of_ne_zero (Nat.pos_iff_ne_zero.1 hspos)
    rw [if_pos ⟨hpower, hspos⟩] at hlow
    have hhalf : den * twoTo (t + 1) = 2 * (den * twoTo t) := by
      rw [twoTo_succ]
      ring
    simp only [Nat.succ_eq_add_one, hhalf, hpower, h52] at hlow hhigh hless hstep
    have hscale : IsScale num den t := ⟨by rw [h53]; omega, fun _ => by rw [h52]; omega⟩
    have hdigits : digitsAt num den t = twoTo 53 :=
      roundHalfEven_eq (by omega) (by rw [h53]; omega) (by rw [h53]; omega) nofun
    rw [level_closest negative hden hscale, if_pos (by omega), hdigits, hpower, twoTo_53,
      Nat.succ_eq_add_one, twoTo_succ t, Nat.mul_assoc, Nat.mul_comm 2]

end

/-! ### The digits of a double -/

section

variable {r : Rounding} {d : Decimal} {m s n : Nat}

/-- The digits that are found are those of a decimal of the interval. -/
theorem admits_of_withDigits? (h : r.withDigits? n = some d) :
    r.admits (d.digits * tenTo d.exponent.toNat) (tenTo (-d.exponent).toNat) := by
  unfold Rounding.withDigits? at h
  dsimp only at h
  generalize digitsBeforePoint r.value r.den - n = e at h
  split at h
  · next hboth =>
    cases h
    obtain ⟨hbelow, habove⟩ := Bool.and_eq_true_iff.1 hboth
    -- the nearest one is one of the two
    have hge := le_roundHalfEven (r.value * tenTo (-e).toNat) (tenTo e.toNat * r.den)
    have hle := roundHalfEven_le (r.value * tenTo (-e).toNat) (tenTo e.toNat * r.den)
    rcases Nat.eq_or_lt_of_le hge with heq | hlt
    · exact heq ▸ hbelow
    · exact Nat.le_antisymm hle hlt ▸ habove
  split at h
  · next hbelow =>
    cases h
    exact hbelow
  split at h
  · next habove =>
    cases h
    exact habove
  · cases h

/-- A power of ten as a quotient of powers of whole exponents. -/
theorem cast_tenTo_toNat (e : Int) :
    ((tenTo e.toNat : Nat) : ℚ) = 10 ^ e * (tenTo (-e).toNat : Nat) := by
  have hcast : ∀ n : Nat, ((tenTo n : Nat) : ℚ) = 10 ^ (n : Int) := fun n => by
    rw [zpow_natCast]
    exact Nat.cast_pow 10 n
  rw [hcast, hcast, ← zpow_add₀ (by norm_num)]
  congr 1
  omega

/-- A number has as many digits as the power of ten below it. -/
theorem exists_length_toDigits {n : Nat} (hn : 0 < n) :
    ∃ k, (Nat.toDigits 10 n).length = k + 1 ∧ 10 ^ k ≤ n := by
  obtain ⟨k, hk⟩ := Nat.exists_eq_succ_of_ne_zero
    (Nat.length_toDigits_pos (b := 10) (n := n)).ne'
  refine ⟨k, hk, ?_⟩
  rcases Nat.eq_zero_or_pos k with rfl | hpos
  · exact hn
  · by_contra hlt
    have := (Nat.length_toDigits_le_iff (b := 10) (by decide) hpos).2 (Nat.not_le.1 hlt)
    omega

/-- A quotient has at least the number of digits before its point that it is said to have. -/
theorem le_of_digitsBeforePoint {num den : Nat} (hnum : 0 < num) (hden : 0 < den) :
    (10 : ℚ) ^ (digitsBeforePoint num den - 1) * den ≤ num := by
  unfold digitsBeforePoint
  split
  · next hle =>
    obtain ⟨k, hk, hpower⟩ := exists_length_toDigits ((Nat.one_le_div_iff hden).2 hle)
    have hmul : 10 ^ k * den ≤ num :=
      (Nat.mul_le_mul_right _ hpower).trans (Nat.div_mul_le_self num den)
    rw [hk, Nat.cast_succ, add_sub_cancel_right, zpow_natCast]
    exact_mod_cast hmul
  · generalize hk : (Nat.toDigits 10 (den / num)).length = k
    have hpos : 0 < k := hk ▸ Nat.length_toDigits_pos
    have hpower : den / num < 10 ^ k :=
      (Nat.length_toDigits_le_iff (by decide) hpos).1 hk.le
    have hmul : den ≤ num * 10 ^ k := by
      rw [Nat.mul_comm]
      exact ((Nat.div_lt_iff_lt_mul hnum).1 hpower).le
    have hexponent : (1 - (k : Int) - 1) = -(k : Int) := by omega
    rw [hexponent, zpow_neg, zpow_natCast, inv_mul_le_iff₀ (by positivity), mul_comm]
    exact_mod_cast hmul

/-- Decimals of seventeen digits are a small part of a double apart. -/
theorem gap_le (hpos : 0 < r.value) (hden : 0 < r.den) {e : Int}
    (he : e = digitsBeforePoint r.value r.den - 17) :
    10 ^ 16 * (tenTo e.toNat * r.den) ≤ r.value * tenTo (-e).toNat := by
  have hvalue := le_of_digitsBeforePoint hpos hden
  have hscale : (0 : ℚ) ≤ (tenTo (-e).toNat : Nat) := Nat.cast_nonneg _
  have hexponent : (10 : ℚ) ^ (digitsBeforePoint r.value r.den - 1) = 10 ^ 16 * 10 ^ e := by
    rw [← zpow_natCast, ← zpow_add₀ (by norm_num)]
    congr 1
    omega
  have hcast : ((10 ^ 16 * (tenTo e.toNat * r.den) : Nat) : ℚ) ≤
      (r.value * tenTo (-e).toNat : Nat) := by
    rw [Nat.cast_mul, Nat.cast_mul, Nat.cast_mul, cast_tenTo_toNat, Nat.cast_pow]
    calc ((10 : Nat) : ℚ) ^ 16 * (10 ^ e * (tenTo (-e).toNat : Nat) * (r.den : ℚ))
        = 10 ^ 16 * 10 ^ e * (r.den : ℚ) * (tenTo (-e).toNat : Nat) := by push_cast; ring
      _ ≤ (r.value : ℚ) * (tenTo (-e).toNat : Nat) := by
          rw [← hexponent]
          exact mul_le_mul_of_nonneg_right hvalue hscale
  exact_mod_cast hcast

/-- Of two decimals around a double one is in its interval, if they are no further apart. -/
theorem admits_or_admits (hpos : 0 < m) (hm : m < twoTo 53) {c unit scale : Nat}
    (hscale : 0 < scale)
    (hgap : 10 ^ 16 * (unit * (Rounding.ofParts m s).den) ≤ (Rounding.ofParts m s).value * scale)
    (hbelow : c * (unit * (Rounding.ofParts m s).den) ≤ (Rounding.ofParts m s).value * scale)
    (habove : (Rounding.ofParts m s).value * scale <
      (c + 1) * (unit * (Rounding.ofParts m s).den)) :
    (Rounding.ofParts m s).admits (c * unit) scale ∨
      (Rounding.ofParts m s).admits ((c + 1) * unit) scale := by
  have h52 : twoTo 52 = 4503599627370496 := rfl
  have h53 : twoTo 53 = 9007199254740992 := rfl
  have hvalue : (Rounding.ofParts m s).value * scale = 4 * (m * (scale * twoTo s)) := by
    show 4 * m * twoTo s * scale = _
    ring
  have hunits : unit * (Rounding.ofParts m s).den = 4 * (unit * unitsPerOne) := by
    show unit * (4 * unitsPerOne) = _
    ring
  have hfew : m * (scale * twoTo s) ≤ twoTo 53 * (scale * twoTo s) :=
    Nat.mul_le_mul_right _ hm.le
  have hstep : 0 < scale * twoTo s := Nat.mul_pos hscale (twoTo_pos s)
  rw [hvalue, hunits] at hgap hbelow habove
  rw [Nat.mul_left_comm c] at hbelow
  rw [Nat.mul_left_comm (c + 1)] at habove
  rw [admits_ofParts_iff hpos, admits_ofParts_iff hpos, Nat.mul_assoc, Nat.mul_assoc]
  rw [Nat.add_mul, Nat.one_mul] at habove ⊢
  generalize unit * unitsPerOne = gap at *
  generalize c * gap = below at *
  -- if the lower one is too low, the upper one is not too high
  split
  · next hpower =>
    have hfewer : m * (scale * twoTo s) = 4503599627370496 * (scale * twoTo s) := by
      rw [hpower.1, h52]
    omega
  · rw [h53] at hfew
    omega

/-- With seventeen digits a double can be written. -/
theorem exists_withDigits? (hpos : 0 < m) (hm : m < twoTo 53) :
    ∃ d, (Rounding.ofParts m s).withDigits? 17 = some d := by
  have hvalue : 0 < (Rounding.ofParts m s).value :=
    Nat.mul_pos (Nat.mul_pos (by decide) hpos) (twoTo_pos s)
  have hden : 0 < (Rounding.ofParts m s).den :=
    Nat.mul_pos (Nat.zero_lt_succ 3) (twoTo_pos _)
  have hgap := gap_le hvalue hden rfl
  unfold Rounding.withDigits?
  dsimp only
  generalize digitsBeforePoint _ _ - ((17 : Nat) : Int) = e at hgap ⊢
  have hstep : 0 < tenTo e.toNat * (Rounding.ofParts m s).den := Nat.mul_pos (tenTo_pos _) hden
  have hfound := admits_or_admits hpos hm (tenTo_pos _) hgap (Nat.div_mul_le_self _ _)
    (by rw [Nat.add_mul, Nat.one_mul]; exact Nat.lt_div_mul_add hstep)
  split
  · exact ⟨_, rfl⟩
  split
  · exact ⟨_, rfl⟩
  next hnot =>
    rw [if_pos (hfound.resolve_left hnot)]
    exact ⟨_, rfl⟩

/-- The digits that a double is written by are those of a decimal of its interval. -/
theorem admits_shortest (hpos : 0 < m) (hm : m < twoTo 53) :
    (Rounding.ofParts m s).admits ((shortest m s).digits * tenTo (shortest m s).exponent.toNat)
      (tenTo (-(shortest m s).exponent).toNat) := by
  obtain ⟨last, hlast⟩ := exists_withDigits? (s := s) hpos hm
  unfold shortest
  rw [if_neg hpos.ne']
  dsimp only
  cases hfound : (List.range 17).findSome? fun n => (Rounding.ofParts m s).withDigits? (n + 1) with
  | none =>
    have hnone := List.findSome?_eq_none_iff.1 hfound 16 (by decide)
    rw [hlast] at hnone
    cases hnone
  | some d =>
    obtain ⟨n, -, hd⟩ := List.exists_of_findSome?_eq_some hfound
    exact admits_of_withDigits? hd

end

/-! ### What is written reads back -/

/-- Above the smallest scale, the digits of a double have their leading bit. -/
theorem lead_of_parts {x : Float} {negative : Bool} {m s : Nat}
    (h : parts x = .finite negative m s) (hs : 0 < s) : twoTo 52 ≤ m := by
  unfold parts at h
  dsimp only at h
  split at h
  · split at h <;> cases h
  split at h
  · cases h
    exact absurd hs (Nat.lt_irrefl 0)
  · cases h
    exact Nat.le_add_left _ _

/-- The decimal that a double is written by has the double for its closest one. -/
theorem level_closest_shortest {x : Float} {negative : Bool} {m s : Nat}
    (h : parts x = .finite negative m s) :
    level (closest negative ((shortest m s).digits * tenTo (shortest m s).exponent.toNat)
      (tenTo (-(shortest m s).exponent).toNat)) = level x := by
  obtain ⟨hm, hs⟩ := parts_bounds h
  rw [level_finite h]
  rcases Nat.eq_zero_or_pos m with rfl | hpos
  · have hzero : shortest 0 s = ⟨0, 0⟩ := if_pos rfl
    rw [hzero, Nat.zero_mul (twoTo s)]
    cases negative with
    | false => decide +kernel
    | true => decide +kernel
  · exact level_closest_of_admits negative (tenTo_pos _) hpos hm hs (lead_of_parts h)
      (admits_shortest hpos hm)

end Gridbook.Real
