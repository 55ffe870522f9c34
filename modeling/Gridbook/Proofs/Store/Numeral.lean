/-
Gridbook/Proofs/Store/Numeral.lean

How well the store reads a numeral.  Its first digits are taken into a word, and those
that do not fit it only count (`takes_ofLiteral`).  The word goes through a number of 64
bits, so the double that is read need not be the closest one; but all that is lost on the
way is a factor that is hardly above one.

Main statements: a numeral that is not tiny is read as its closest double or as one of
that one's neighbours (`adjacent_value`), and one of at most 18 digits, of which at most
five are behind the point, as its closest double (`level_value_short`).
-/
import Gridbook.Store.Numeral
import Gridbook.Proofs.Real.Middle
import Gridbook.Proofs.Real.Decimal

namespace Gridbook.Numeral

open Gridbook.Real

/-! ### The word of a numeral -/

/-- The word has the first digits of a number, all but the last `j`; it is full if any are
left out. -/
structure Takes (digits j n : Nat) : Prop where
  low : digits * tenTo j ≤ n
  high : n < (digits + 1) * tenTo j
  full : 0 < j → fullWord ≤ digits
  fits : digits < 10 * fullWord

section

variable {s : Significand} {digits j n d : Nat}

theorem digitValue_lt (c : Char) : Text.digitValue c < 10 := by
  unfold Text.digitValue
  cases hc : Text.digitValue? c with
  | none => exact Nat.zero_lt_succ 9
  | some d => exact Text.digitValue?_lt hc

theorem takes_zero : Takes 0 0 0 where
  low := Nat.le_refl _
  high := Nat.one_pos
  full := nofun
  fits := by decide

theorem Takes.taken (h : Takes digits j n) (hless : digits < fullWord) (hd : d < 10) :
    j = 0 ∧ Takes (10 * digits + d) 0 (10 * n + d) := by
  obtain rfl : j = 0 := by
    by_contra hpos
    exact absurd (h.full (Nat.pos_of_ne_zero hpos)) (Nat.not_le.2 hless)
  have hone : tenTo 0 = 1 := rfl
  have hlow := h.low
  have hhigh := h.high
  rw [hone, Nat.mul_one] at hlow hhigh
  refine ⟨rfl, ?_, ?_, nofun, by omega⟩
  · rw [hone, Nat.mul_one]
    omega
  · rw [hone, Nat.mul_one]
    omega

theorem Takes.left (h : Takes digits j n) (hfull : ¬ digits < fullWord) (hd : d < 10) :
    Takes digits (j + 1) (10 * n + d) where
  low := by
    have hlow := h.low
    rw [tenTo_succ, ← Nat.mul_assoc]
    omega
  high := by
    have hhigh := h.high
    rw [tenTo_succ, ← Nat.mul_assoc]
    omega
  full _ := Nat.le_of_not_lt hfull
  fits := h.fits

/-- What a digit before the point does. -/
theorem takes_wholeDigit (h : Takes s.digits j n) (hs : s.scale = j) (c : Char) :
    ∃ i : Nat, Takes (s.wholeDigit c).digits i (10 * n + Text.digitValue c) ∧
      (s.wholeDigit c).scale = i := by
  have hc := digitValue_lt c
  unfold Significand.wholeDigit
  split
  · next hless =>
    obtain ⟨rfl, htaken⟩ := h.taken hless hc
    exact ⟨0, htaken, hs⟩
  · next hfull => exact ⟨j + 1, h.left hfull hc, by rw [hs]; rfl⟩

/-- What a digit after the point does. -/
theorem takes_fractionDigit {f : Nat} (h : Takes s.digits j n) (hs : s.scale = (j : Int) - f)
    (c : Char) : ∃ i : Nat, Takes (s.fractionDigit c).digits i (10 * n + Text.digitValue c) ∧
      (s.fractionDigit c).scale = (i : Int) - (f + 1 : Nat) := by
  have hc := digitValue_lt c
  unfold Significand.fractionDigit
  split
  · next hless =>
    obtain ⟨rfl, htaken⟩ := h.taken hless hc
    refine ⟨0, htaken, ?_⟩
    show s.scale - 1 = _
    omega
  · next hfull =>
    refine ⟨j + 1, h.left hfull hc, ?_⟩
    omega

theorem takes_whole (ds : List Char) (h : Takes s.digits j n) (hs : s.scale = j) :
    ∃ i : Nat, Takes (ds.foldl Significand.wholeDigit s).digits i
        (ds.foldl (fun n c => 10 * n + Text.digitValue c) n) ∧
      (ds.foldl Significand.wholeDigit s).scale = i := by
  induction ds generalizing s j n with
  | nil => exact ⟨j, h, hs⟩
  | cons c ds ih =>
    obtain ⟨i, hi, hscale⟩ := takes_wholeDigit h hs c
    exact ih hi hscale

theorem takes_fraction (ds : List Char) {f : Nat} (h : Takes s.digits j n)
    (hs : s.scale = (j : Int) - f) :
    ∃ i : Nat, Takes (ds.foldl Significand.fractionDigit s).digits i
        (ds.foldl (fun n c => 10 * n + Text.digitValue c) n) ∧
      (ds.foldl Significand.fractionDigit s).scale = (i : Int) - (f + ds.length : Nat) := by
  induction ds generalizing s j n f with
  | nil => exact ⟨j, h, hs⟩
  | cons c ds ih =>
    obtain ⟨i, hi, hscale⟩ := takes_fractionDigit h hs c
    obtain ⟨i', hi', hscale'⟩ := ih hi hscale
    refine ⟨i', hi', ?_⟩
    rw [List.foldl_cons, hscale', List.length_cons]
    omega

end

/-- The word of a literal and the power of ten that it is scaled by, but for the
exponent. -/
theorem takes_ofLiteral (l : Literal) :
    ∃ j : Nat, Takes (Significand.ofLiteral l).digits j (Text.digitsValue (l.whole ++ l.fraction)) ∧
      (Significand.ofLiteral l).scale = (j : Int) - l.fraction.length := by
  obtain ⟨i, hi, hscale⟩ := takes_whole (s := ⟨0, 0⟩) l.whole takes_zero rfl
  obtain ⟨j, hj, hscale'⟩ := takes_fraction l.fraction (f := 0) hi (by rw [hscale]; omega)
  refine ⟨j, ?_, ?_⟩
  · unfold Text.digitsValue
    rw [List.foldl_append]
    exact hj
  · rw [Nat.zero_add] at hscale'
    exact hscale'

/-! ### The exponent -/

theorem foldl_exponent {ds : List Char} (h : Text.digitsValue ds < largestExponent) :
    ds.foldl (fun n c => if n < largestExponent then 10 * n + Text.digitValue c
      else largestExponent) 0 = Text.digitsValue ds := by
  -- from the last digit on, so that the bound on all digits bounds those before it
  induction ds using List.reverseRecOn with
  | nil => rfl
  | append_singleton ds c ih =>
    rw [Text.digitsValue_append_singleton] at h ⊢
    have hless : Text.digitsValue ds < largestExponent := by omega
    rw [List.foldl_append, ih hless, List.foldl_cons, if_pos hless]
    rfl

/-- An exponent of four digits is read as it is. -/
theorem exponentOf_eq {l : Literal}
    (h : ∀ e, l.exponent = some e → Text.digitsValue e.digits < largestExponent) :
    exponentOf l = (l.exponent.map Literal.Exponent.value).getD 0 := by
  unfold exponentOf
  cases he : l.exponent with
  | none => rfl
  | some e =>
    dsimp only
    rw [foldl_exponent (h e he)]
    rfl

/-! ### Tens -/

section

variable {digits e : Nat}

/-- The number stays the same when tens go from the power into the digits. -/
theorem absorbTens_mul (digits e : Nat) :
    (absorbTens digits e).1 * tenTo (absorbTens digits e).2 = digits * tenTo e := by
  induction e generalizing digits with
  | zero => rfl
  | succ e ih =>
    unfold absorbTens
    split
    · rfl
    · rw [ih, tenTo_succ]
      ring

/-- Tens are left over only beside a full word. -/
theorem absorbTens_full (h : 0 < (absorbTens digits e).2) :
    (twoTo 63 - 1) / 10 ≤ (absorbTens digits e).1 := by
  induction e generalizing digits with
  | zero => exact absurd h (Nat.lt_irrefl 0)
  | succ e ih =>
    unfold absorbTens at h ⊢
    by_cases hfull : (twoTo 63 - 1) / 10 ≤ digits
    · rw [if_pos hfull]
      exact hfull
    · rw [if_neg hfull] at h ⊢
      exact ih h

/-- The quotient stays the same when tens are taken off digits and power. -/
theorem shedTens_mul (digits e : Nat) :
    (shedTens digits e).1 * tenTo e = digits * tenTo (shedTens digits e).2 := by
  induction e generalizing digits with
  | zero => rfl
  | succ e ih =>
    unfold shedTens
    split
    · next hzero =>
      have hten : digits / 10 * 10 = digits := Nat.div_mul_cancel (Nat.dvd_of_mod_eq_zero hzero)
      rw [tenTo_succ, ← Nat.mul_assoc, ih, Nat.mul_right_comm, hten]
    · rfl

theorem shedTens_le (digits e : Nat) :
    (shedTens digits e).1 ≤ digits ∧ (shedTens digits e).2 ≤ e := by
  induction e generalizing digits with
  | zero => exact ⟨Nat.le_refl _, Nat.le_refl _⟩
  | succ e ih =>
    unfold shedTens
    split
    · obtain ⟨h, h'⟩ := ih (digits / 10)
      exact ⟨Nat.le_trans h (Nat.div_le_self _ _), Nat.le_succ_of_le h'⟩
    · exact ⟨Nat.le_refl _, Nat.le_refl _⟩

/-- All tens that the digits have are taken off. -/
theorem shedTens_of_dvd {i : Nat} (h : tenTo i ∣ digits) (hi : i ≤ e) :
    (shedTens digits e).2 ≤ e - i := by
  induction e generalizing digits i with
  | zero => exact Nat.zero_le _
  | succ e ih =>
    cases i with
    | zero => exact (shedTens_le digits (e + 1)).2
    | succ i =>
      rw [tenTo_succ] at h
      have hten : digits % 10 = 0 := Nat.mod_eq_zero_of_dvd ((Nat.dvd_mul_left 10 _).trans h)
      have hdvd : 10 * tenTo i ∣ digits := by rwa [Nat.mul_comm]
      have hrest := ih (Nat.dvd_div_of_mul_dvd hdvd) (Nat.le_of_succ_le_succ hi)
      unfold shedTens
      rw [if_pos hten]
      omega

end

/-! ### The number of a literal -/

theorem tenTo_add (m n : Nat) : tenTo (m + n) = tenTo m * tenTo n :=
  Nat.pow_add 10 m n

/-- The number that a literal writes. -/
def magnitude (l : Literal) : ℚ :=
  Text.digitsValue (l.whole ++ l.fraction) * 10 ^ l.scale

theorem cast_tenTo (n : Nat) : ((tenTo n : Nat) : ℚ) = 10 ^ n :=
  Nat.cast_pow 10 n

theorem ten_ne_zero : (10 : ℚ) ≠ 0 := by
  norm_num

theorem tenTo_div_tenTo (n : Nat) (e : Int) :
    ((n * tenTo e.toNat : Nat) : ℚ) / (tenTo (-e).toNat : Nat) = n * 10 ^ e := by
  rw [Nat.cast_mul, cast_tenTo, cast_tenTo, mul_div_assoc, ← zpow_natCast, ← zpow_natCast,
    ← zpow_sub₀ ten_ne_zero]
  congr 2
  omega

/-- The double of a literal is closest to the number that it writes. -/
theorem nearest_literal (l : Literal) :
    Nearest (magnitude l * unitsPerOne) (level l.toReal) := by
  have hnearest := nearest_closest (Text.digitsValue (l.whole ++ l.fraction) * tenTo l.scale.toNat)
    (tenTo_pos (-l.scale).toNat)
  rw [mul_div_right_comm, tenTo_div_tenTo, ← Literal.toReal_eq_closest] at hnearest
  exact hnearest

/-- What a full word leaves out is hardly anything. -/
theorem Takes.close {digits j n : Nat} (h : Takes digits j n) :
    Close 11 (n : ℚ) (digits * 10 ^ j) := by
  have hlow : (digits * 10 ^ j : ℚ) ≤ n := by
    rw [← cast_tenTo]
    exact_mod_cast h.low
  have hhigh : (n : ℚ) < (digits + 1) * 10 ^ j := by
    rw [← cast_tenTo]
    exact_mod_cast h.high
  have hn : (0 : ℚ) ≤ n := Nat.cast_nonneg n
  have hten : (0 : ℚ) < 10 ^ j := pow_pos (by norm_num) j
  refine ⟨?_, hlow.trans (le_mul_of_one_le_right hn (one_le_pow₀ one_le_slack))⟩
  rcases Nat.eq_zero_or_pos j with rfl | hj
  · -- nothing has been left out
    rw [pow_zero, mul_one] at hhigh ⊢
    have heq : n ≤ digits := by
      have hless : (n : ℚ) < (digits + 1 : Nat) := by exact_mod_cast hhigh
      exact Nat.le_of_lt_succ (Nat.cast_lt.1 hless)
    exact (Nat.cast_le.2 heq).trans
      (le_mul_of_one_le_right (Nat.cast_nonneg digits) (one_le_pow₀ one_le_slack))
  · have hfull : (922337203685477579 : ℚ) ≤ digits := by
      have hword : 922337203685477579 ≤ digits := h.full hj
      exact_mod_cast hword
    have hslack : (1 + 1 / 922337203685477579 : ℚ) ≤ slack ^ 11 := by
      unfold slack
      norm_num
    have hstep : (digits + 1 : ℚ) ≤ digits * slack ^ 11 := by
      calc (digits + 1 : ℚ) ≤ digits * (1 + 1 / 922337203685477579) := by linarith
        _ ≤ digits * slack ^ 11 := mul_le_mul_of_nonneg_left hslack (Nat.cast_nonneg digits)
    calc (n : ℚ) ≤ (digits + 1) * 10 ^ j := hhigh.le
      _ ≤ digits * slack ^ 11 * 10 ^ j := mul_le_mul_of_nonneg_right hstep hten.le
      _ = digits * 10 ^ j * slack ^ 11 := by ring

/-! ### Scaling -/

/-- The doubles that are read with either sign are the closest ones of a number that is
close to `q`. -/
structure Reads (k : Nat) (q : ℚ) (x : Bool → Float) : Prop where
  exists_close : ∃ r : ℚ, 0 ≤ r ∧ Close k q r ∧ Nearest (r * unitsPerOne) (level (x false))
  neg : level (x true) = -level (x false)
  number : ∀ negative, parts (x negative) ≠ .nan

section

variable {k d e : Nat} {q : ℚ} {x : Bool → Float}

theorem nearest_toReal (a : Extended) :
    Nearest (a.value * unitsPerOne) (level (a.toReal false)) := by
  have hnearest := nearest_closest (Extended.scaled a.m a.e) (twoTo_pos (-a.e).toNat)
  rwa [mul_div_right_comm, ← Extended.value_eq] at hnearest

theorem reads_toReal {a : Extended} (h : Close k q a.value) :
    Reads k q fun negative => a.toReal negative where
  exists_close := ⟨a.value, a.value_nonneg, h, nearest_toReal a⟩
  neg := level_closest_neg (twoTo_pos _)
  number negative := parts_closest_ne_nan negative _ (twoTo_pos _)

theorem Reads.mono {m : Nat} (h : Reads m q x) (hq : 0 ≤ q) (hmk : m ≤ k) : Reads k q x := by
  obtain ⟨r, hr, hclose, hnearest⟩ := h.exists_close
  exact ⟨⟨r, hr, hclose.mono hq hr hmk, hnearest⟩, h.neg, h.number⟩

theorem Reads.trans {m : Nat} {p : ℚ} (h : Reads m q x) (hp : Close k p q) : Reads (k + m) p x := by
  obtain ⟨r, hr, hclose, hnearest⟩ := h.exists_close
  exact ⟨⟨r, hr, hp.trans hclose, hnearest⟩, h.neg, h.number⟩

/-- Beyond the doubles an infinity is the closest. -/
theorem reads_of_beyond (hq : 2 ^ 1024 ≤ q)
    (hx : ∀ negative, parts (x negative) = .infinite negative) :
    Reads 0 q x where
  exists_close := by
    have hend : (gridEnd : ℚ) ≤ q * unitsPerOne := by
      calc (gridEnd : ℚ) = 2 ^ 1024 * unitsPerOne := by
            rw [gridEnd_eq, Nat.cast_mul, cast_twoTo, cast_twoTo, cast_unitsPerOne, ← pow_add,
              ← zpow_natCast, ← zpow_natCast, ← zpow_add₀ two_ne_zero]
            rfl
        _ ≤ q * unitsPerOne := mul_le_mul_of_nonneg_right hq (Nat.cast_nonneg _)
    have hlevel : level (x false) = gridEnd := level_infinite (hx false)
    refine ⟨q, (pow_nonneg two_pos.le _).trans hq, Close.refl q, ?_⟩
    rw [hlevel]
    exact nearest_of_beyond hend
  neg := by
    rw [level_infinite (hx false), level_infinite (hx true)]
    rfl
  number negative := by
    rw [hx]
    nofun

theorem close_powerOfTen_div (d : Nat) (he : e ≤ 307) :
    Close (e + 1) (d / 10 ^ e : ℚ) ((Extended.ofNat d).div (Extended.powerOfTen e)).value := by
  have hten : (0 : ℚ) < 10 ^ e := pow_pos (by norm_num) e
  have hpower := Extended.close_powerOfTen (k := e) (by omega)
  have hpos : 0 < (Extended.powerOfTen e).value := by
    have hle := hpower.left
    by_contra hzero
    have := mul_nonpos_of_nonpos_of_nonneg (not_lt.1 hzero) (pow_nonneg slack_pos.le e)
    linarith
  have hclose := (Close.refl (d : ℚ)).div hpower (Nat.cast_nonneg d) (Nat.cast_nonneg d) hten hpos
  rw [← Extended.value_ofNat d] at hclose
  have hrounded := hclose.trans (Extended.close_div (.ofNat d) (Extended.value_pos_iff.1 hpos))
  rw [Extended.value_ofNat, Nat.zero_add] at hrounded
  exact hrounded

theorem reads_scaledDown (d : Nat) (he : e ≤ 307) :
    Reads (e + 1) (d / 10 ^ e) fun negative => scaledDown negative d e := by
  unfold scaledDown
  simp only [if_pos he]
  exact reads_toReal (close_powerOfTen_div d he)

theorem close_powerOfTen_mul (d : Nat) (he : e < 512) :
    Close (e + 1) (d * 10 ^ e : ℚ) ((Extended.ofNat d).mul (Extended.powerOfTen e)).value := by
  have hd : Close 0 (d : ℚ) (Extended.ofNat d).value := by
    rw [Extended.value_ofNat]
    exact Close.refl d
  have hmul := Extended.Close.mul_ext hd (Extended.close_powerOfTen he) (Nat.cast_nonneg d)
    (pow_nonneg (by norm_num) e)
  rwa [Nat.zero_add] at hmul

theorem parts_infinity_mul (negative : Bool) :
    parts ((if negative then -1 / 0 else 1 / 0) * 1e308) = .infinite negative := by
  cases negative with
  | false => decide +kernel
  | true => decide +kernel

/-- A number from `2^58` on is too large to be multiplied by `10^308`. -/
theorem parts_toReal_mul {a : Extended} (h : 2 ^ 58 ≤ a.value) (negative : Bool) :
    parts (a.toReal negative * 1e308) = .infinite negative := by
  have hden := twoTo_pos (-a.e).toNat
  rcases closest_cases hden (isScale_log2 (Extended.scaled a.m a.e) hden) with
    ⟨m, t, -, -, hparts⟩ | ⟨-, hinfinite⟩
  · have hten : parts 1e308 = .finite false 5010420900022432 2045 := by decide +kernel
    have hbound := (parts_bounds (hparts false)).1
    have hgrid : OnGrid ((twoTo 53 * twoTo 1079 : Nat) : Int) :=
      onGrid_mul (Nat.le_refl _) (by omega)
    have hlow : (((twoTo 53 * twoTo 1079 : Nat) : Int) : ℚ) ≤ a.value * unitsPerOne := by
      calc (((twoTo 53 * twoTo 1079 : Nat) : Int) : ℚ) = 2 ^ 58 * unitsPerOne := by
            rw [Int.cast_natCast, Nat.cast_mul, cast_twoTo, cast_twoTo, cast_unitsPerOne, ← pow_add,
              ← zpow_natCast, ← zpow_natCast, ← zpow_add₀ two_ne_zero]
            rfl
        _ ≤ a.value * unitsPerOne := mul_le_mul_of_nonneg_right h (Nat.cast_nonneg _)
    have hlevel := (nearest_toReal a).le_of_le hgrid hlow
    have hfinite : level (a.toReal false) = (m * twoTo t : Nat) := level_finite (hparts false)
    rw [hfinite] at hlevel
    have hle : twoTo 53 * twoTo 1079 ≤ m * twoTo t := by omega
    have hpos : 0 < m := by
      refine Nat.pos_of_ne_zero fun hzero => ?_
      rw [hzero, Nat.zero_mul] at hle
      exact absurd hle (Nat.not_le.2 (Nat.mul_pos (twoTo_pos 53) (twoTo_pos 1079)))
    have hless : twoTo 1079 < twoTo t :=
      Nat.lt_of_mul_lt_mul_left
        (Nat.lt_of_le_of_lt hle (Nat.mul_lt_mul_of_pos_right hbound (twoTo_pos t)))
    have ht : 1079 < t := by
      by_contra hle
      exact absurd (twoTo_le (not_lt.1 hle)) (Nat.not_le.2 hless)
    exact parts_mul_of_large (hparts negative) hten hpos (by decide) (by omega)
  · unfold Extended.toReal
    rw [hinfinite]
    exact parts_infinity_mul negative

/-- Beside a power that is left over, a full word is beyond the doubles. -/
theorem reads_scaledUp (d : Nat) (hfull : 0 < e → (twoTo 63 - 1) / 10 ≤ d) :
    Reads 308 (d * 10 ^ e) fun negative => scaledUp negative d e := by
  have hnonneg : (0 : ℚ) ≤ d * 10 ^ e := mul_nonneg (Nat.cast_nonneg d) (pow_nonneg (by norm_num) e)
  rcases Nat.lt_or_ge 307 e with hlarge | hsmall
  · have hd : (2 ^ 59 : ℚ) ≤ d := by
      have hword : 922337203685477580 ≤ d := hfull (by omega)
      have hcast : (922337203685477580 : ℚ) ≤ d := by exact_mod_cast hword
      linarith
    have hbeyond : (2 ^ 1024 : ℚ) ≤ d * 10 ^ e := by
      have hten : (2 ^ 93 : ℚ) ≤ 10 ^ 28 := by norm_num
      calc (2 ^ 1024 : ℚ) ≤ 2 ^ (59 + 93 * 11) := pow_le_pow_right₀ one_le_two (by norm_num)
        _ = 2 ^ 59 * (2 ^ 93) ^ 11 := by rw [pow_add, pow_mul]
        _ ≤ 2 ^ 59 * (10 ^ 28) ^ 11 :=
            mul_le_mul_of_nonneg_left (pow_le_pow_left₀ (by norm_num) hten 11) (by norm_num)
        _ = 2 ^ 59 * 10 ^ 308 := by rw [← pow_mul]
        _ ≤ d * 10 ^ e :=
            mul_le_mul hd (pow_le_pow_right₀ (by norm_num) hlarge) (by positivity)
              (Nat.cast_nonneg d)
    refine (reads_of_beyond hbeyond fun negative => ?_).mono hnonneg (Nat.zero_le _)
    unfold scaledUp
    dsimp only
    rw [if_neg (by omega)]
    split
    · next hless =>
      -- the rest of the power can only enlarge the word, but for what is lost on the way
      refine parts_toReal_mul ?_ negative
      have hless' : e - 308 < 512 := by omega
      have hclose := (close_powerOfTen_mul d hless').left
      have hslack : slack ^ (e - 308 + 1) ≤ 2 := by
        calc slack ^ (e - 308 + 1) ≤ slack ^ 34 := pow_le_pow_right₀ one_le_slack (by omega)
          _ ≤ 2 := by
              unfold slack
              norm_num
      have hone : (d : ℚ) ≤ d * 10 ^ (e - 308) :=
        le_mul_of_one_le_right (Nat.cast_nonneg d) (one_le_pow₀ (by norm_num))
      have hdouble := mul_le_mul_of_nonneg_left hslack
        ((Extended.ofNat d).mul (Extended.powerOfTen (e - 308))).value_nonneg
      linarith
    · exact parts_overflow negative
  · unfold scaledUp
    simp only [if_pos hsmall]
    exact (reads_toReal (close_powerOfTen_mul d (by omega))).mono hnonneg (by omega)

end

/-! ### Reading a literal -/

/-- The exponent has four digits at most, leading zeros apart, and the number is zero or not
tiny. -/
structure IsOrdinary (l : Literal) : Prop where
  exponent : ∀ e, l.exponent = some e → Text.digitsValue e.digits < largestExponent
  notTiny : magnitude l = 0 ∨ 1 ≤ magnitude l * 10 ^ 288

section

variable {l : Literal}

theorem magnitude_nonneg (l : Literal) : 0 ≤ magnitude l :=
  mul_nonneg (Nat.cast_nonneg _) (zpow_nonneg (by norm_num) _)

/-- The word of a literal, at its power of ten. -/
theorem close_word (h : IsOrdinary l) :
    Close 11 (magnitude l) ((Significand.ofLiteral l).digits *
      10 ^ (exponentOf l + (Significand.ofLiteral l).scale)) := by
  obtain ⟨j, htakes, hscale⟩ := takes_ofLiteral l
  have hten : (0 : ℚ) ≤ 10 ^ l.scale := zpow_nonneg (by norm_num) _
  have hexponent : exponentOf l + (Significand.ofLiteral l).scale = j + l.scale := by
    rw [exponentOf_eq h.exponent, hscale]
    unfold Literal.scale
    omega
  have hmul := htakes.close.mul (Close.refl (10 ^ l.scale)) (Nat.cast_nonneg _)
    (mul_nonneg (Nat.cast_nonneg _) (pow_nonneg (by norm_num) _)) hten hten
  rw [hexponent, zpow_add₀ ten_ne_zero, zpow_natCast, ← mul_assoc]
  exact hmul

theorem reads_zero : Reads 0 0 fun negative => if negative then -0.0 else 0.0 where
  exists_close := by
    have hzero : level (0.0 : Float) = 0 := by decide +kernel
    refine ⟨0, le_rfl, Close.refl 0, ?_⟩
    rw [if_neg Bool.false_ne_true, hzero, zero_mul]
    refine ⟨onGrid_zero, fun z _ hlt => ?_, fun z _ hlt => ?_⟩
    · have hneg : (z : ℚ) < 0 := by exact_mod_cast hlt
      rw [Int.cast_zero]
      linarith
    · have hpos : (0 : ℚ) < z := by exact_mod_cast hlt
      rw [Int.cast_zero]
      linarith
  neg := by decide +kernel
  number := by decide +kernel

/-- A word over a large power of ten is tiny. -/
theorem power_le_of_le {d n : Nat} (hd : d < 10 * fullWord)
    (hlow : (1 : ℚ) ≤ d / 10 ^ n * 2 * 10 ^ 288) : n ≤ 307 := by
  by_contra hlarge
  have hword : (d : ℚ) ≤ 10 ^ 19 := by
    have hfull : 10 * fullWord ≤ 10 ^ 19 := by decide
    exact_mod_cast Nat.le_trans (Nat.le_of_lt hd) hfull
  have hunit : (0 : ℚ) < 10 ^ 288 := by positivity
  have hten : (0 : ℚ) < 10 ^ n := by positivity
  have hpower : (10 ^ 20 * 10 ^ 288 : ℚ) ≤ 10 ^ n := by
    rw [← pow_add]
    exact pow_le_pow_right₀ (by norm_num) (by omega)
  have hscaled : (10 : ℚ) ^ n ≤ d * 2 * 10 ^ 288 := by
    rwa [mul_assoc, div_mul_eq_mul_div, le_div_iff₀ hten, one_mul, ← mul_assoc] at hlow
  have hless : (10 ^ 20 * 10 ^ 288 : ℚ) ≤ 10 ^ 19 * 2 * 10 ^ 288 := by
    calc (10 ^ 20 * 10 ^ 288 : ℚ) ≤ d * 2 * 10 ^ 288 := hpower.trans hscaled
      _ ≤ 10 ^ 19 * 2 * 10 ^ 288 :=
          mul_le_mul_of_nonneg_right (mul_le_mul_of_nonneg_right hword (by norm_num)) hunit.le
  have hword' := le_of_mul_le_mul_right hless hunit
  norm_num at hword'

theorem IsOrdinary.one_le {q : ℚ} (h : IsOrdinary l) (hclose : Close 11 (magnitude l) q)
    (hq : 0 < q) : 1 ≤ q * 2 * 10 ^ 288 := by
  have hslack : slack ^ 11 ≤ 2 := by
    unfold slack
    norm_num
  rcases h.notTiny with hzero | hlow
  · have hle := hclose.right
    rw [hzero, zero_mul] at hle
    exact absurd hq (not_lt.2 hle)
  · have hle : magnitude l ≤ q * 2 := hclose.left.trans (mul_le_mul_of_nonneg_left hslack hq.le)
    exact hlow.trans (mul_le_mul_of_nonneg_right hle (by positivity))

/-- A numeral is read as a double of a number that is close to what it writes. -/
theorem reads_value (h : IsOrdinary l) :
    Reads 400 (magnitude l) fun negative => value negative l := by
  obtain ⟨j, htakes, -⟩ := takes_ofLiteral l
  have hclose := close_word h
  have hfits := htakes.fits
  unfold value
  dsimp only
  generalize (Significand.ofLiteral l).digits = d at hclose hfits ⊢
  generalize exponentOf l + (Significand.ofLiteral l).scale = e at hclose ⊢
  by_cases hzero : d = 0
  · simp only [if_pos hzero]
    rw [hzero, Nat.cast_zero, zero_mul] at hclose
    exact (reads_zero.trans hclose).mono (magnitude_nonneg l) (by norm_num)
  · simp only [if_neg hzero]
    by_cases hneg : e < 0
    · -- tens of the word are taken off both it and the power
      obtain ⟨n, rfl⟩ : ∃ n : Nat, e = -(n : Int) := ⟨e.natAbs, by omega⟩
      simp only [if_pos hneg, Int.natAbs_neg, Int.natAbs_natCast]
      obtain ⟨hle, -⟩ := shedTens_le d n
      have hquotient : (d * 10 ^ (-(n : Int)) : ℚ) = (shedTens d n).1 / 10 ^ (shedTens d n).2 := by
        have hten : ∀ i : Nat, (10 : ℚ) ^ i ≠ 0 := fun i => pow_ne_zero i ten_ne_zero
        rw [zpow_neg, zpow_natCast, ← div_eq_mul_inv, div_eq_div_iff (hten n) (hten _),
          ← cast_tenTo, ← cast_tenTo]
        exact_mod_cast (shedTens_mul d n).symm
      have hpositive : (0 : ℚ) < d * 10 ^ (-(n : Int)) :=
        mul_pos (Nat.cast_pos.2 (Nat.pos_of_ne_zero hzero)) (zpow_pos (by norm_num) _)
      rw [hquotient] at hclose hpositive
      have hpower : (shedTens d n).2 ≤ 307 :=
        power_le_of_le (Nat.lt_of_le_of_lt hle hfits) (h.one_le hclose hpositive)
      exact ((reads_scaledDown _ hpower).trans hclose).mono (magnitude_nonneg l) (by omega)
    · -- tens of the power go into the word as long as there is room
      obtain ⟨n, rfl⟩ : ∃ n : Nat, e = n := ⟨e.natAbs, by omega⟩
      simp only [if_neg hneg, Int.natAbs_natCast]
      have hproduct : (d * 10 ^ n : ℚ) = (absorbTens d n).1 * 10 ^ (absorbTens d n).2 := by
        rw [← cast_tenTo, ← cast_tenTo]
        exact_mod_cast (absorbTens_mul d n).symm
      rw [zpow_natCast, hproduct] at hclose
      exact ((reads_scaledUp _ absorbTens_full).trans hclose).mono (magnitude_nonneg l)
        (by norm_num)

theorem level_signed (sign : List Char) (l : Literal) :
    level (Literal.signed sign l) = if sign = ['-'] then -level l.toReal else level l.toReal := by
  unfold Literal.signed
  split
  · rw [Literal.toReal_eq_closest, neg_closest (tenTo_pos _), level_closest_neg (tenTo_pos _)]
  · rfl

theorem level_value (h : IsOrdinary l) (sign : List Char) :
    level (value (decide (sign = ['-'])) l) =
      if sign = ['-'] then -level (value false l) else level (value false l) := by
  split
  · next hminus =>
    rw [decide_eq_true hminus]
    exact (reads_value h).neg
  · next hplus => rw [decide_eq_false hplus]

/-- An ordinary numeral is read as its closest double or as a neighbour of that one. -/
theorem adjacent_value (h : IsOrdinary l) (sign : List Char) :
    Adjacent (level (Literal.signed sign l)) (level (value (decide (sign = ['-'])) l)) := by
  obtain ⟨r, hr, hclose, hnearest⟩ := (reads_value h).exists_close
  have hunits : (0 : ℚ) ≤ unitsPerOne := Nat.cast_nonneg _
  have hscaled := hclose.mul (Close.refl (unitsPerOne : ℚ)) (magnitude_nonneg l) hr hunits hunits
  have hadjacent := adjacent_of_close (nearest_literal l) hnearest
    (mul_nonneg (magnitude_nonneg l) hunits) (mul_nonneg hr hunits) hscaled (Nat.le_refl 400)
  rw [level_signed, level_value h]
  split
  · exact hadjacent.neg
  · exact hadjacent

/-! ### Short numerals -/

/-- The number has at most 18 digits, of which at most five are behind the point, zeros at
the end apart. -/
structure IsShort (l : Literal) : Prop where
  exponent : ∀ e, l.exponent = some e → Text.digitsValue e.digits < largestExponent
  fits : Text.digitsValue (l.whole ++ l.fraction) * tenTo l.scale.toNat < 10 ^ 18
  fraction : tenTo ((-l.scale).toNat - 5) ∣ Text.digitsValue (l.whole ++ l.fraction)

theorem IsShort.isOrdinary (h : IsShort l) : IsOrdinary l where
  exponent := h.exponent
  notTiny := by
    rcases Nat.eq_zero_or_pos (Text.digitsValue (l.whole ++ l.fraction)) with hzero | hpos
    · left
      unfold magnitude
      rw [hzero, Nat.cast_zero, zero_mul]
    · right
      have hdigits : tenTo (-l.scale).toNat ≤ Text.digitsValue (l.whole ++ l.fraction) *
          tenTo l.scale.toNat * tenTo 288 := by
        calc tenTo (-l.scale).toNat ≤ tenTo ((-l.scale).toNat - 5 + 288) := tenTo_le (by omega)
          _ = tenTo ((-l.scale).toNat - 5) * tenTo 288 := tenTo_add _ _
          _ ≤ Text.digitsValue (l.whole ++ l.fraction) * tenTo 288 :=
              Nat.mul_le_mul_right _ (Nat.le_of_dvd hpos h.fraction)
          _ ≤ Text.digitsValue (l.whole ++ l.fraction) * tenTo l.scale.toNat * tenTo 288 :=
              Nat.mul_le_mul_right _ (Nat.le_mul_of_pos_right _ (tenTo_pos _))
      have hten : (0 : ℚ) < (tenTo (-l.scale).toNat : Nat) := Nat.cast_pos.2 (tenTo_pos _)
      unfold magnitude
      rw [← tenTo_div_tenTo, div_mul_eq_mul_div, le_div_iff₀ hten, one_mul, ← cast_tenTo 288]
      exact_mod_cast hdigits

/-- The word of a short numeral has all its digits. -/
theorem IsShort.word (h : IsShort l) :
    (Significand.ofLiteral l).digits = Text.digitsValue (l.whole ++ l.fraction) ∧
      exponentOf l + (Significand.ofLiteral l).scale = l.scale := by
  obtain ⟨j, htakes, hscale⟩ := takes_ofLiteral l
  have hdigits : Text.digitsValue (l.whole ++ l.fraction) < 10 ^ 18 :=
    Nat.lt_of_le_of_lt (Nat.le_mul_of_pos_right _ (tenTo_pos _)) h.fits
  have hlow := htakes.low
  have hhigh := htakes.high
  obtain rfl : j = 0 := by
    by_contra hpos
    have hfull : 922337203685477579 ≤ (Significand.ofLiteral l).digits :=
      htakes.full (Nat.pos_of_ne_zero hpos)
    have hten : tenTo 1 ≤ tenTo j := tenTo_le (Nat.one_le_iff_ne_zero.2 hpos)
    have hle : (Significand.ofLiteral l).digits * 10 ≤ (Significand.ofLiteral l).digits * tenTo j :=
      Nat.mul_le_mul_left _ hten
    omega
  have hone : tenTo 0 = 1 := rfl
  rw [hone, Nat.mul_one] at hlow hhigh
  refine ⟨by omega, ?_⟩
  rw [exponentOf_eq h.exponent, hscale]
  unfold Literal.scale
  omega

theorem level_scaledDown {d n : Nat} (hpos : 0 < d) (hfits : d < 10 ^ 18)
    (hfraction : tenTo (n - 5) ∣ d) :
    level (scaledDown false (shedTens d n).1 (shedTens d n).2) =
      level (closest false d (tenTo n)) := by
  obtain ⟨hle, -⟩ := shedTens_le d n
  have hmul := shedTens_mul d n
  have hfive := shedTens_of_dvd hfraction (Nat.sub_le n 5)
  generalize (shedTens d n).1 = m at hle hmul ⊢
  generalize (shedTens d n).2 = i at hfive hmul ⊢
  have hm : 0 < m := by
    refine Nat.pos_of_ne_zero fun hzero => ?_
    rw [hzero, Nat.zero_mul] at hmul
    exact Nat.ne_of_lt (Nat.mul_pos hpos (tenTo_pos i)) hmul
  unfold scaledDown
  dsimp only
  rw [if_pos (by omega), Extended.level_toReal_div hm (Nat.lt_of_le_of_lt hle hfits) (by omega)]
  exact congrArg level (closest_congr false (tenTo_pos i) (tenTo_pos n) hmul)

theorem level_scaledUp {d n : Nat} (hpos : 0 < d) (hfits : d * tenTo n < 10 ^ 18) :
    level (scaledUp false (absorbTens d n).1 (absorbTens d n).2) =
      level (closest false (d * tenTo n) (tenTo 0)) := by
  have hone : tenTo 0 = 1 := rfl
  have hmul := absorbTens_mul d n
  have hfull : 0 < (absorbTens d n).2 → _ := absorbTens_full
  generalize (absorbTens d n).1 = m at hmul hfull ⊢
  generalize (absorbTens d n).2 = i at hmul hfull ⊢
  rw [← hmul] at hfits ⊢
  -- the word is not full, so it has taken all tens
  obtain rfl : i = 0 := by
    by_contra hleft
    have hword : 922337203685477580 ≤ m := hfull (Nat.pos_of_ne_zero hleft)
    have hten : tenTo 1 ≤ tenTo i := tenTo_le (Nat.one_le_iff_ne_zero.2 hleft)
    have hle : m * 10 ≤ m * tenTo i := Nat.mul_le_mul_left _ hten
    omega
  rw [hone, Nat.mul_one] at hfits hmul
  have hm : 0 < m := hmul ▸ Nat.mul_pos hpos (tenTo_pos n)
  unfold scaledUp
  dsimp only
  rw [if_pos (Nat.zero_le 307), Extended.level_toReal_mul hm hfits, hone, Nat.mul_one]

/-- A short numeral is read as its closest double. -/
theorem level_value_short (h : IsShort l) (sign : List Char) :
    level (value (decide (sign = ['-'])) l) = level (Literal.signed sign l) := by
  suffices hsame : level (value false l) = level l.toReal by
    rw [level_value h.isOrdinary, level_signed, hsame]
  obtain ⟨hword, hexponent⟩ := h.word
  have hfits := h.fits
  have hfraction := h.fraction
  rw [Literal.toReal_eq_closest]
  unfold value
  dsimp only
  rw [hword, hexponent]
  generalize Text.digitsValue (l.whole ++ l.fraction) = d at hfits hfraction ⊢
  generalize l.scale = e at hfits hfraction ⊢
  have hone : tenTo 0 = 1 := rfl
  split
  · next hzero =>
    rw [hzero, closest_zero_digits]
    decide +kernel
  · next hne =>
    have hpos := Nat.pos_of_ne_zero hne
    split
    · next hneg =>
      have hnum : e.toNat = 0 := by omega
      have hden : (-e).toNat = e.natAbs := by omega
      rw [hnum, hone, Nat.mul_one] at hfits
      rw [hden] at hfraction
      rw [hnum, hden, hone, Nat.mul_one]
      exact level_scaledDown hpos hfits hfraction
    · next hnonneg =>
      have hnum : e.toNat = e.natAbs := by omega
      have hden : (-e).toNat = 0 := by omega
      rw [hnum] at hfits
      rw [hnum, hden]
      exact level_scaledUp hpos hfits

end

end Gridbook.Numeral
