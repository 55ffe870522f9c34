/-
Gridbook/Proofs/Real/Rounding.lean

How an unpacked number is rounded.  Bits of `m` in `m · 2^e` are shifted out until 53 are
left, or fewer at the smallest exponent.  The last of these bits and whether there was any
before it are kept, and with them the shifted mantissa stands for the exact quotient
(`Describes`).  So what is rounded is the quotient, half to even.  Rounding up may take one
bit more, which is dropped again.

The exponent that results is the one thing that can be too large: it has room up to 971
(`Fits`), and beyond it the number is packed as an infinity.

Main statements: rounding in closed form (`round_eq`), and the digits that it leaves are
those of the quotient (`rounded_eq`).
-/
import Mathlib
import Gridbook.Proofs.Real.Range

namespace Gridbook.Real

open Float.Model Float.Model.UnpackedFloat

/-! ### Shifting -/

/-- The mantissa with its two further bits stands for `num / den`. -/
structure Describes (em : ExtendedMantissa) (num den : Nat) : Prop where
  mantissa : em.mantissa = num / den
  roundBit : em.roundBit = decide (den ≤ 2 * (num % den))
  stickyBit : em.stickyBit = decide (2 * (num % den) ≠ 0 ∧ 2 * (num % den) ≠ den)

section

variable {em : ExtendedMantissa} {num den : Nat}

theorem describes_ofFraction (hden : 0 < den) :
    Describes (.ofMantissaAndAccuracy (num / den) (accuracyOfFraction (num % den) den))
      num den := by
  have hlt := Nat.mod_lt num hden
  unfold accuracyOfFraction
  rcases Nat.eq_zero_or_pos (num % den) with hzero | hpos
  · rw [if_pos hzero]
    refine ⟨rfl, ?_, ?_⟩
    · rw [hzero, decide_eq_false (by omega)]
      rfl
    · rw [hzero, decide_eq_false (by omega)]
      rfl
  · rw [if_neg (by omega)]
    rcases Nat.lt_trichotomy (2 * (num % den)) den with hless | heq | hmore
    · rw [Nat.compare_eq_lt.2 hless]
      refine ⟨rfl, ?_, ?_⟩
      · rw [decide_eq_false (by omega)]
        rfl
      · rw [decide_eq_true (by omega)]
        rfl
    · rw [Nat.compare_eq_eq.2 heq]
      refine ⟨rfl, ?_, ?_⟩
      · rw [decide_eq_true (by omega)]
        rfl
      · rw [decide_eq_false (by omega)]
        rfl
    · rw [Nat.compare_eq_gt.2 hmore]
      refine ⟨rfl, ?_, ?_⟩
      · rw [decide_eq_true (by omega)]
        rfl
      · rw [decide_eq_true (by omega)]
        rfl

/-- A shift by one halves the quotient. -/
theorem Describes.shiftRightOne (h : Describes em num den) (hden : 0 < den) :
    Describes em.shiftRightOne num (den * 2) := by
  have hmod : num % (den * 2) = num % den + den * (num / den % 2) := Nat.mod_mul
  have hlt := Nat.mod_lt num hden
  have hbit := Nat.mod_two_eq_zero_or_one (num / den)
  refine ⟨?_, ?_, ?_⟩
  · show em.mantissa / 2 = num / (den * 2)
    rw [h.mantissa, Nat.div_div_eq_div_mul]
  · show (em.mantissa % 2 != 0) = _
    rw [h.mantissa, hmod]
    rcases hbit with hbit | hbit
    · rw [hbit, Nat.mul_zero, decide_eq_false (by omega)]
      rfl
    · rw [hbit, Nat.mul_one, decide_eq_true (by omega)]
      rfl
  · show (em.roundBit || em.stickyBit) = _
    have hany : (em.roundBit || em.stickyBit) = decide (num % den ≠ 0) := by
      rw [h.roundBit, h.stickyBit, ← Bool.decide_or]
      exact decide_eq_decide.2 (by omega)
    rw [hany, hmod]
    refine decide_eq_decide.2 ?_
    rcases hbit with hbit | hbit
    · rw [hbit, Nat.mul_zero]
      omega
    · rw [hbit, Nat.mul_one]
      omega

theorem Describes.shiftRight (h : Describes em num den) (hden : 0 < den) (n : Nat) :
    Describes (em >>> n) num (den * 2 ^ n) := by
  show Describes (n.repeat ExtendedMantissa.shiftRightOne em) num (den * 2 ^ n)
  induction n with
  | zero => rwa [Nat.pow_zero, Nat.mul_one]
  | succ n ih =>
    rw [Nat.pow_succ, ← Nat.mul_assoc]
    exact ih.shiftRightOne (Nat.mul_pos hden (Nat.two_pow_pos n))

/-- What a mantissa is rounded to is the quotient, half to even. -/
theorem Describes.roundedMantissa (h : Describes em num den) :
    em.roundedMantissa = roundHalfEven num den := by
  obtain ⟨m, round, sticky⟩ := em
  obtain ⟨hmantissa, hround, hsticky⟩ := h
  dsimp only at hmantissa hround hsticky
  subst hmantissa hround hsticky
  unfold roundHalfEven ExtendedMantissa.roundedMantissa ExtendedMantissa.accuracy
  dsimp only
  rcases Nat.lt_trichotomy (2 * (num % den)) den with hless | heq | hmore
  · rw [if_pos hless, decide_eq_false (by omega)]
    cases decide (2 * (num % den) ≠ 0 ∧ 2 * (num % den) ≠ den) with
    | false => rfl
    | true => rfl
  · rw [if_neg (by omega), if_neg (by omega), decide_eq_true (by omega), decide_eq_false (by omega)]
    show num / den + num / den % 2 = _
    split <;> omega
  · rw [if_neg (by omega), if_pos hmore, decide_eq_true (by omega), decide_eq_true (by omega)]
    rfl

end

theorem mantissa_shiftRight (em : ExtendedMantissa) (n : Nat) :
    (em >>> n).mantissa = em.mantissa / 2 ^ n := by
  show (n.repeat ExtendedMantissa.shiftRightOne em).mantissa = em.mantissa / 2 ^ n
  induction n with
  | zero => exact (Nat.div_one _).symm
  | succ n ih =>
    show (n.repeat ExtendedMantissa.shiftRightOne em).mantissa / 2 = em.mantissa / 2 ^ (n + 1)
    rw [ih, Nat.div_div_eq_div_mul, Nat.pow_succ]

theorem mantissa_ofMantissaAndAccuracy (m : Nat) (acc : Accuracy) :
    (ExtendedMantissa.ofMantissaAndAccuracy m acc).mantissa = m := by
  unfold ExtendedMantissa.ofMantissaAndAccuracy
  split <;> rfl

/-! ### Rounding -/

/-- The exponent at which 53 bits are left, but not below the smallest one. -/
def keptExponent (m : Nat) (e : Int) : Int :=
  max (m.log2 + e - 52) (-1074)

theorem targetExponent_eq (m : Nat) (e : Int) :
    Format.binary64.targetExponent (totalExponent m e) = keptExponent m e := by
  show max ((m.log2 : Int) + 1 + e - 53) (3 - 1024 - 53) = max (m.log2 + e - 52) (-1074)
  omega

theorem shiftToTarget_eq (m : Nat) (e : Int) (acc : Accuracy) :
    shiftToTargetExponent Format.binary64 m e acc =
      (ExtendedMantissa.ofMantissaAndAccuracy m acc >>> (keptExponent m e - e).toNat,
        max e (keptExponent m e)) := by
  unfold shiftToTargetExponent shiftToExponent
  dsimp only
  rw [targetExponent_eq]
  refine Prod.ext rfl ?_
  show e + ((keptExponent m e - e).toNat : Int) = max e (keptExponent m e)
  omega

/-- The bits that are kept, rounded. -/
def rounded (m : Nat) (e : Int) (acc : Accuracy) : Nat :=
  (ExtendedMantissa.ofMantissaAndAccuracy m acc >>> (keptExponent m e - e).toNat).roundedMantissa

/-- Rounding in closed form: a bit too many after the first rounding is dropped. -/
theorem round_eq (s : Sign) (m : Nat) (e : Int) (acc : Accuracy) :
    roundWithAccuracy Format.binary64 s m e acc =
      let r := rounded m e acc
      if h : r / 2 ^ (r.log2 - 52) = 0 then .zero s
      else .finite s (r / 2 ^ (r.log2 - 52)) (max e (keptExponent m e) + (r.log2 - 52 : Nat))
        (Nat.pos_of_ne_zero h) := by
  unfold roundWithAccuracy
  dsimp only
  rw [shiftToTarget_eq, shiftToTarget_eq]
  dsimp only
  have hr : (ExtendedMantissa.ofMantissaAndAccuracy m acc >>>
    (keptExponent m e - e).toNat).roundedMantissa = rounded m e acc := rfl
  have hlow : (-1074 : Int) ≤ max e (keptExponent m e) := by
    unfold keptExponent
    omega
  rw [hr]
  generalize max e (keptExponent m e) = d at hlow ⊢
  generalize rounded m e acc = r
  have hshift : (keptExponent r d - d).toNat = r.log2 - 52 := by
    unfold keptExponent
    omega
  have hexponent : max d (keptExponent r d) = d + (r.log2 - 52 : Nat) := by
    unfold keptExponent
    omega
  have hmantissa : (ExtendedMantissa.ofMantissaAndAccuracy r .exact >>> (r.log2 - 52)).mantissa =
      r / 2 ^ (r.log2 - 52) := by
    rw [mantissa_shiftRight, mantissa_ofMantissaAndAccuracy]
  simp only [hshift, hexponent, hmantissa]

/-- Digits that are cut to nothing are none. -/
theorem cut_eq_zero_iff {r : Nat} : r / 2 ^ (r.log2 - 52) = 0 ↔ r = 0 := by
  constructor
  · intro h
    by_contra hr
    have hlow : 2 ^ (r.log2 - 52) ≤ r :=
      Nat.le_trans (Nat.pow_le_pow_right (by decide) (Nat.sub_le _ _)) (Nat.log2_self_le hr)
    exact Nat.ne_of_gt (Nat.div_pos hlow (Nat.two_pow_pos _)) h
  · rintro rfl
    exact Nat.zero_div _

theorem rounded_eq {num den : Nat} (hden : 0 < den) (e : Int) :
    rounded (num / den) e (accuracyOfFraction (num % den) den) =
      roundHalfEven num (den * 2 ^ (keptExponent (num / den) e - e).toNat) :=
  ((describes_ofFraction hden).shiftRight hden _).roundedMantissa

theorem rounded_exact (m : Nat) (e : Int) :
    rounded m e .exact = roundHalfEven m (2 ^ (keptExponent m e - e).toNat) := by
  have hrounded : rounded (m / 1) e (accuracyOfFraction (m % 1) 1) = _ := rounded_eq Nat.one_pos e
  rw [Nat.div_one, Nat.mod_one, Nat.one_mul] at hrounded
  exact hrounded

/-- A number that is not shifted out is no zero. -/
theorem rounded_pos {m : Nat} (hm : 0 < m) {e : Int} (he : -1074 ≤ e) :
    0 < rounded m e .exact := by
  have hshift : (keptExponent m e - e).toNat ≤ m.log2 := by
    unfold keptExponent
    omega
  rw [rounded_exact]
  refine Nat.lt_of_lt_of_le (Nat.div_pos ?_ (Nat.two_pow_pos _)) (le_roundHalfEven _ _)
  exact Nat.le_trans (Nat.pow_le_pow_right Nat.two_pos hshift) (Nat.log2_self_le (Nat.ne_of_gt hm))

/-! ### Room for the exponent -/

/-- There is room for the exponent, if it is a number at all. -/
def Fits : UnpackedFloat → Prop
  | .zero _ => True
  | .finite _ _ e _ => e ≤ 971
  | _ => False

theorem fits_round {s : Sign} {m : Nat} {e : Int} {acc : Accuracy} :
    Fits (roundWithAccuracy Format.binary64 s m e acc) ↔
      rounded m e acc = 0 ∨
        max e (keptExponent m e) + ((rounded m e acc).log2 - 52 : Nat) ≤ 971 := by
  rw [round_eq]
  dsimp only
  generalize rounded m e acc = r
  split
  · next h => exact ⟨fun _ => .inl (cut_eq_zero_iff.1 h), fun _ => trivial⟩
  · next h =>
    have hr : r ≠ 0 := fun hr => h (cut_eq_zero_iff.2 hr)
    exact ⟨.inr, fun h => h.resolve_left hr⟩

/-- A number without room for its exponent is packed as an infinity of its sign. -/
theorem pack_of_not_fits {s : Sign} {m : Nat} {e : Int} {hm : 0 < m}
    (h : ¬ Fits (.finite s m e hm)) :
    Float.Model.pack (.finite s m e hm) = Float.Model.pack (.infinity s) := by
  have he : ¬ e ≤ 971 := h
  have hbits : UnpackedFloat.pack Format.binary64 (.finite s m e hm) =
      packedInfinity Format.binary64 s := by
    unfold UnpackedFloat.pack
    dsimp only
    rw [if_pos]
    show 2 ^ 11 ≤ (e + 1023 + 52).toNat + 1
    omega
  unfold Float.Model.pack
  simp only [hbits]
  rfl

theorem pack_round_of_not_fits {s : Sign} {m : Nat} {e : Int} {acc : Accuracy}
    (h : ¬ Fits (roundWithAccuracy Format.binary64 s m e acc)) :
    Float.Model.pack (roundWithAccuracy Format.binary64 s m e acc) =
      Float.Model.pack (.infinity s) := by
  rw [round_eq] at h ⊢
  dsimp only at h ⊢
  split at h
  · exact absurd trivial h
  · next hne =>
    rw [dif_neg hne]
    exact pack_of_not_fits h

end Gridbook.Real
