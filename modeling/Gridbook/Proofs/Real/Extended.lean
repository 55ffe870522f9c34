/-
Gridbook/Proofs/Real/Extended.lean

How exact the numbers of 64 bits are.  An operation on them is rounded to the nearest one,
so its result is the exact one up to a factor that is hardly above one; `Close n` says that
two numbers differ by at most `n` such factors.  Factors add up: a product or a quotient
has those of its operands and one more, and the power ten to the `k` has no more than `k`.

Main statements: what is rounded is close (`close_nearest`), and so is a power of ten
(`close_powerOfTen`).
-/
import Gridbook.Real.Extended
import Gridbook.Proofs.Real.Closest

namespace Gridbook.Real

/-! ### Close numbers -/

/-- The factor between a number and what it is rounded to. -/
def slack : ℚ := 1 + 1 / 2 ^ 63

theorem one_le_slack : 1 ≤ slack := by
  unfold slack
  norm_num

theorem slack_pos : 0 < slack :=
  lt_of_lt_of_le one_pos one_le_slack

/-- The two numbers differ by at most `n` factors. -/
structure Close (n : Nat) (q r : ℚ) : Prop where
  left : q ≤ r * slack ^ n
  right : r ≤ q * slack ^ n

namespace Close

variable {m n : Nat} {p q r s : ℚ}

theorem refl (q : ℚ) : Close 0 q q :=
  ⟨by rw [pow_zero, mul_one], by rw [pow_zero, mul_one]⟩

theorem mono (h : Close m q r) (hq : 0 ≤ q) (hr : 0 ≤ r) (hmn : m ≤ n) : Close n q r := by
  have hpow : slack ^ m ≤ slack ^ n := pow_le_pow_right₀ one_le_slack hmn
  exact ⟨h.left.trans (mul_le_mul_of_nonneg_left hpow hr),
    h.right.trans (mul_le_mul_of_nonneg_left hpow hq)⟩

theorem trans (h : Close m p q) (h' : Close n q r) : Close (m + n) p r := by
  have hm : 0 ≤ slack ^ m := pow_nonneg slack_pos.le m
  have hn : 0 ≤ slack ^ n := pow_nonneg slack_pos.le n
  constructor
  · calc p ≤ q * slack ^ m := h.left
      _ ≤ r * slack ^ n * slack ^ m := mul_le_mul_of_nonneg_right h'.left hm
      _ = r * slack ^ (m + n) := by rw [pow_add]; ring
  · calc r ≤ q * slack ^ n := h'.right
      _ ≤ p * slack ^ m * slack ^ n := mul_le_mul_of_nonneg_right h.right hn
      _ = p * slack ^ (m + n) := by rw [pow_add]; ring

theorem mul (h : Close m p q) (h' : Close n r s) (hp : 0 ≤ p) (hq : 0 ≤ q) (hr : 0 ≤ r)
    (hs : 0 ≤ s) : Close (m + n) (p * r) (q * s) := by
  have hm : 0 ≤ slack ^ m := pow_nonneg slack_pos.le m
  constructor
  · calc p * r ≤ q * slack ^ m * (s * slack ^ n) :=
          mul_le_mul h.left h'.left hr (mul_nonneg hq hm)
      _ = q * s * slack ^ (m + n) := by rw [pow_add]; ring
  · calc q * s ≤ p * slack ^ m * (r * slack ^ n) :=
          mul_le_mul h.right h'.right hs (mul_nonneg hp hm)
      _ = p * r * slack ^ (m + n) := by rw [pow_add]; ring

theorem inv (h : Close n q r) (hq : 0 < q) (hr : 0 < r) : Close n q⁻¹ r⁻¹ := by
  have hpos : 0 ≤ q⁻¹ * r⁻¹ := by positivity
  constructor
  · calc q⁻¹ = r * (q⁻¹ * r⁻¹) := by field_simp
      _ ≤ q * slack ^ n * (q⁻¹ * r⁻¹) := mul_le_mul_of_nonneg_right h.right hpos
      _ = r⁻¹ * slack ^ n := by field_simp
  · calc r⁻¹ = q * (q⁻¹ * r⁻¹) := by field_simp
      _ ≤ r * slack ^ n * (q⁻¹ * r⁻¹) := mul_le_mul_of_nonneg_right h.left hpos
      _ = q⁻¹ * slack ^ n := by field_simp

theorem div (h : Close m p q) (h' : Close n r s) (hp : 0 ≤ p) (hq : 0 ≤ q) (hr : 0 < r)
    (hs : 0 < s) : Close (m + n) (p / r) (q / s) := by
  rw [div_eq_mul_inv, div_eq_mul_inv]
  exact h.mul (h'.inv hr hs) hp hq (inv_nonneg.2 hr.le) (inv_nonneg.2 hs.le)

end Close

namespace Extended

/-- The value of a number of 64 bits. -/
def value (a : Extended) : ℚ :=
  a.m * 2 ^ a.e

theorem value_nonneg (a : Extended) : 0 ≤ a.value :=
  mul_nonneg (Nat.cast_nonneg _) (zpow_nonneg two_pos.le _)

theorem value_ofNat (n : Nat) : (ofNat n).value = n := by
  unfold value ofNat
  rw [zpow_zero, mul_one]

/-! ### Scaled numbers -/

theorem cast_scaled (n : Nat) (k : Int) : (scaled n k : ℚ) = n * 2 ^ k.toNat := by
  unfold scaled
  rw [Nat.cast_mul, cast_twoTo]

/-- A quotient of scaled numbers is the scaled quotient. -/
theorem scaled_div_scaled (num den : Nat) (k : Int) :
    (scaled num (-k) : ℚ) / scaled den k = num / den * 2 ^ (-k) := by
  have htwo : (2 : ℚ) ≠ 0 := two_ne_zero
  have hpower : (2 : ℚ) ^ (-k).toNat / 2 ^ k.toNat = 2 ^ (-k) := by
    rw [← zpow_natCast, ← zpow_natCast, ← zpow_sub₀ htwo]
    congr 1
    omega
  rw [cast_scaled, cast_scaled, mul_div_mul_comm, hpower]

theorem scaled_pos {n : Nat} (hn : 0 < n) (k : Int) : 0 < scaled n k :=
  Nat.mul_pos hn (twoTo_pos _)

/-- Rounding a quotient moves it by at most one half. -/
theorem abs_roundHalfEven_sub_le (n : Nat) {d : Nat} (hd : 0 < d) :
    |(roundHalfEven n d : ℚ) - n / d| ≤ 1 / 2 := by
  have hd' : (0 : ℚ) < d := Nat.cast_pos.2 hd
  have hup : (2 * (roundHalfEven n d * d) : ℚ) ≤ 2 * n + d := by
    exact_mod_cast two_mul_roundHalfEven_le hd
  have hdown : (2 * n : ℚ) ≤ 2 * (roundHalfEven n d * d) + d := by
    exact_mod_cast le_two_mul_roundHalfEven hd
  have hdiff : (roundHalfEven n d : ℚ) - n / d = (roundHalfEven n d * d - n) / d := by
    rw [sub_div, mul_div_cancel_right₀ _ hd'.ne']
  rw [hdiff, abs_div, abs_of_pos hd', div_le_iff₀ hd', abs_le]
  constructor
  · linarith
  · linarith

theorem scaled_le_scaled_iff {num den : Nat} (hden : 0 < den) (k : Int) :
    scaled den k ≤ scaled num (-k) ↔ (2 : ℚ) ^ k ≤ num / den := by
  have hpos : (0 : ℚ) < scaled den k := Nat.cast_pos.2 (scaled_pos hden k)
  have htwo : (0 : ℚ) < 2 ^ k := zpow_pos two_pos k
  rw [← Nat.cast_le (α := ℚ), ← one_le_div₀ hpos, scaled_div_scaled, zpow_neg,
    ← div_eq_mul_inv, one_le_div₀ htwo]

/-- The leading bit of a quotient is where it is said to be. -/
theorem leadingBit_bounds {num den : Nat} (hnum : 0 < num) (hden : 0 < den) :
    (2 : ℚ) ^ leadingBit num den ≤ num / den ∧ (num / den : ℚ) < 2 ^ (leadingBit num den + 1) := by
  have htwo : (2 : ℚ) ≠ 0 := two_ne_zero
  have hden' : (0 : ℚ) < den := Nat.cast_pos.2 hden
  have hnumLow : (2 : ℚ) ^ num.log2 ≤ num := by
    exact_mod_cast Nat.log2_self_le (Nat.ne_of_gt hnum)
  have hnumHigh : (num : ℚ) < 2 ^ (num.log2 + 1) := by
    exact_mod_cast Nat.lt_log2_self (n := num)
  have hdenLow : (2 : ℚ) ^ den.log2 ≤ den := by
    exact_mod_cast Nat.log2_self_le (Nat.ne_of_gt hden)
  have hdenHigh : (den : ℚ) < 2 ^ (den.log2 + 1) := by
    exact_mod_cast Nat.lt_log2_self (n := den)
  have hlow : (2 : ℚ) ^ ((num.log2 : Int) - den.log2 - 1) ≤ num / den := by
    rw [le_div_iff₀ hden']
    calc (2 : ℚ) ^ ((num.log2 : Int) - den.log2 - 1) * den
        ≤ 2 ^ ((num.log2 : Int) - den.log2 - 1) * 2 ^ (den.log2 + 1) :=
          mul_le_mul_of_nonneg_left hdenHigh.le (zpow_nonneg two_pos.le _)
      _ = 2 ^ num.log2 := by
          rw [← zpow_natCast, ← zpow_natCast, ← zpow_add₀ htwo]
          congr 1
          omega
      _ ≤ num := hnumLow
  have hhigh : (num / den : ℚ) < 2 ^ ((num.log2 : Int) - den.log2 + 1) := by
    rw [div_lt_iff₀ hden']
    calc (num : ℚ) < 2 ^ (num.log2 + 1) := hnumHigh
      _ = 2 ^ ((num.log2 : Int) - den.log2 + 1) * 2 ^ den.log2 := by
          rw [← zpow_natCast, ← zpow_natCast, ← zpow_add₀ htwo]
          congr 1
          omega
      _ ≤ 2 ^ ((num.log2 : Int) - den.log2 + 1) * den :=
          mul_le_mul_of_nonneg_left hdenLow (zpow_nonneg two_pos.le _)
  unfold leadingBit
  dsimp only
  split
  · next hle => exact ⟨(scaled_le_scaled_iff hden _).1 hle, hhigh⟩
  · next hlt =>
    have hless := not_le.1 fun hle => hlt ((scaled_le_scaled_iff hden _).2 hle)
    refine ⟨hlow, ?_⟩
    rwa [Int.sub_add_cancel]

/-! ### Rounding -/

/-- The power of two that the significand of a rounded quotient is in units of. -/
def lastBit (num den : Nat) : Int :=
  leadingBit num den - 63

theorem nearest_eq {num den : Nat} (hnum : 0 < num) (e : Int) :
    nearest num den e = ⟨roundHalfEven (scaled num (-lastBit num den))
      (scaled den (lastBit num den)), lastBit num den + e⟩ := by
  unfold nearest
  rw [if_neg (Nat.ne_of_gt hnum)]
  rfl

/-- What a quotient is rounded to is at most half of its last bit away. -/
theorem value_nearest {num den : Nat} (hnum : 0 < num) (hden : 0 < den) (e : Int) :
    |(nearest num den e).value - num / den * 2 ^ e| ≤ 2 ^ (lastBit num den + e) / 2 := by
  have htwo : (2 : ℚ) ≠ 0 := two_ne_zero
  have hpos := scaled_pos hden (lastBit num den)
  have hpos' : (0 : ℚ) < scaled den (lastBit num den) := Nat.cast_pos.2 hpos
  have hhalf := abs_roundHalfEven_sub_le (scaled num (-lastBit num den)) hpos
  have hratio := scaled_div_scaled num den (lastBit num den)
  rw [nearest_eq hnum]
  unfold value
  dsimp only
  generalize roundHalfEven (scaled num (-lastBit num den)) (scaled den (lastBit num den)) = r at *
  have hexact : (num / den * 2 ^ e : ℚ) =
      scaled num (-lastBit num den) / scaled den (lastBit num den) * 2 ^ (lastBit num den + e) := by
    rw [hratio, zpow_add₀ htwo, zpow_neg]
    field_simp
  rw [hexact, ← sub_mul, abs_mul,
    abs_of_pos (zpow_pos two_pos _ : (0 : ℚ) < 2 ^ (lastBit num den + e))]
  calc _ ≤ 1 / 2 * (2 : ℚ) ^ (lastBit num den + e) :=
        mul_le_mul_of_nonneg_right hhalf (zpow_nonneg two_pos.le _)
    _ = 2 ^ (lastBit num den + e) / 2 := by ring

/-- A quotient has 64 bits in units of its last one. -/
theorem two_pow_lastBit_le {num den : Nat} (hnum : 0 < num) (hden : 0 < den) (e : Int) :
    2 ^ 63 * 2 ^ (lastBit num den + e) ≤ (num / den * 2 ^ e : ℚ) := by
  have htwo : (2 : ℚ) ≠ 0 := two_ne_zero
  calc (2 : ℚ) ^ 63 * 2 ^ (lastBit num den + e) = 2 ^ leadingBit num den * 2 ^ e := by
        rw [← zpow_natCast, ← zpow_add₀ htwo, ← zpow_add₀ htwo]
        congr 1
        unfold lastBit
        push_cast
        ring
    _ ≤ num / den * 2 ^ e :=
        mul_le_mul_of_nonneg_right (leadingBit_bounds hnum hden).1 (zpow_nonneg two_pos.le _)

/-- What is rounded is close to the exact quotient. -/
theorem close_nearest (num : Nat) {den : Nat} (hden : 0 < den) (e : Int) :
    Close 1 (num / den * 2 ^ e) (nearest num den e).value := by
  rcases Nat.eq_zero_or_pos num with rfl | hnum
  · have hzero : (nearest 0 den e).value = 0 := by
      unfold nearest value
      rw [if_pos rfl, Nat.cast_zero, zero_mul]
    rw [hzero, Nat.cast_zero, zero_div, zero_mul]
    exact (Close.refl 0).mono le_rfl le_rfl (Nat.zero_le 1)
  · have hhalf := abs_le.1 (value_nearest hnum hden e)
    have hleading := two_pow_lastBit_le hnum hden e
    generalize (num / den * 2 ^ e : ℚ) = q at hhalf hleading ⊢
    generalize (nearest num den e).value = v at hhalf ⊢
    generalize (2 : ℚ) ^ (lastBit num den + e) = u at hhalf hleading
    constructor
    · rw [pow_one, slack]
      linarith
    · rw [pow_one, slack]
      linarith

/-! ### Operations -/

variable {a b : Extended}

theorem close_mul (a b : Extended) : Close 1 (a.value * b.value) (a.mul b).value := by
  have hclose := close_nearest (a.m * b.m) Nat.one_pos (a.e + b.e)
  have hexact : a.value * b.value = ((a.m * b.m : Nat) : ℚ) / (1 : Nat) * 2 ^ (a.e + b.e) := by
    unfold value
    rw [zpow_add₀ two_ne_zero, Nat.cast_one, div_one, Nat.cast_mul]
    ring
  rw [hexact]
  exact hclose

theorem close_div (a : Extended) (hb : 0 < b.m) : Close 1 (a.value / b.value) (a.div b).value := by
  have hclose := close_nearest a.m hb (a.e - b.e)
  have hexact : a.value / b.value = (a.m : ℚ) / b.m * 2 ^ (a.e - b.e) := by
    unfold value
    rw [zpow_sub₀ two_ne_zero, mul_div_mul_comm]
  rw [hexact]
  exact hclose

/-- A product of numbers that are close to others. -/
theorem Close.mul_ext {m n : Nat} {q r : ℚ} (ha : Close m q a.value) (hb : Close n r b.value)
    (hq : 0 ≤ q) (hr : 0 ≤ r) : Close (m + n + 1) (q * r) (a.mul b).value :=
  (ha.mul hb hq a.value_nonneg hr b.value_nonneg).trans (close_mul a b)

/-! ### Powers of ten -/

/-- The number that bits spell, the lowest first. -/
def spelled : List Bool → Nat
  | [] => 0
  | bit :: bits => bit.toNat + 2 * spelled bits

/-- Repeated squaring has as many factors as the exponent at most. -/
theorem close_powerFrom (bits : List Bool) {square result : Extended} {p k : Nat} (hp : 0 < p)
    (hsquare : Close (p - 1) (10 ^ p) square.value) (hresult : Close k (10 ^ k) result.value) :
    Close (k + p * spelled bits) (10 ^ (k + p * spelled bits))
      (powerFrom square result bits).value := by
  have hten : ∀ n : Nat, (0 : ℚ) ≤ 10 ^ n := fun n => pow_nonneg (by norm_num) n
  induction bits generalizing square result p k with
  | nil => exact hresult
  | cons bit bits ih =>
    have hdouble : Close (2 * p - 1) (10 ^ (2 * p)) (square.mul square).value := by
      have hmul := Close.mul_ext hsquare hsquare (hten p) (hten p)
      have hfactors : p - 1 + (p - 1) + 1 = 2 * p - 1 := by omega
      rwa [hfactors, ← pow_add, ← two_mul] at hmul
    cases bit with
    | false =>
      have hrest := ih (by omega) hdouble hresult
      have hexponent : k + 2 * p * spelled bits = k + p * spelled (false :: bits) := by
        show _ = k + p * (0 + 2 * spelled bits)
        ring
      rwa [hexponent] at hrest
    | true =>
      have hstep : Close (k + p) (10 ^ (k + p)) (result.mul square).value := by
        have hmul := Close.mul_ext hresult hsquare (hten k) (hten p)
        have hfactors : k + (p - 1) + 1 = k + p := by omega
        rwa [hfactors, ← pow_add] at hmul
      have hrest := ih (by omega) hdouble hstep
      have hexponent : k + p + 2 * p * spelled bits = k + p * spelled (true :: bits) := by
        show _ = k + p * (1 + 2 * spelled bits)
        ring
      rwa [hexponent] at hrest

theorem spelled_bitsOf (n k : Nat) : spelled (bitsOf n k) = k % 2 ^ n := by
  induction n generalizing k with
  | zero => rw [Nat.pow_zero, Nat.mod_one]; rfl
  | succ n ih =>
    have hrest : (List.range n).map (fun i => k.testBit (i + 1)) = bitsOf n (k / 2) := by
      refine List.map_congr_left fun i _ => ?_
      rw [Nat.testBit_succ]
    have hbits : bitsOf (n + 1) k = k.testBit 0 :: bitsOf n (k / 2) := by
      rw [← hrest]
      show (List.range (n + 1)).map k.testBit = _
      rw [List.range_succ_eq_map, List.map_cons, List.map_map]
      rfl
    have hbit : (k.testBit 0).toNat = k % 2 := by
      rw [Nat.toNat_testBit, Nat.pow_zero, Nat.div_one]
    rw [hbits, spelled, ih, hbit, Nat.pow_succ', Nat.mod_mul]

/-- A power of ten has as many factors as its exponent at most. -/
theorem close_powerOfTen {k : Nat} (hk : k < 512) : Close k (10 ^ k) (powerOfTen k).value := by
  have hten : Close (1 - 1) (10 ^ 1) (ofNat 10).value := by
    rw [value_ofNat]
    norm_num
    exact Close.refl 10
  have hone : Close 0 (10 ^ 0) (ofNat 1).value := by
    rw [value_ofNat]
    norm_num
    exact Close.refl 1
  have hpower := close_powerFrom (bitsOf 9 k) Nat.one_pos hten hone
  have hspelled : spelled (bitsOf 9 k) = k := (spelled_bitsOf 9 k).trans (Nat.mod_eq_of_lt hk)
  rwa [hspelled, Nat.one_mul, Nat.zero_add] at hpower

/-! ### The closest double -/

theorem value_eq (a : Extended) : a.value = scaled a.m a.e / twoTo (-a.e).toNat := by
  have htwo : (2 : ℚ) ≠ 0 := two_ne_zero
  rw [cast_scaled, cast_twoTo, mul_div_assoc, ← zpow_natCast, ← zpow_natCast, ← zpow_sub₀ htwo]
  unfold value
  congr 2
  omega

end Extended

end Gridbook.Real
