/-
Gridbook/Proofs/Real/Packing.lean

Rounded and packed numbers are closest doubles.  The exponent at which 53 bits of a number
are left is its scale (`isScale_keptExponent`), and the digits that rounding leaves are those
at this scale; so the bits that are packed are those of the closest double.  A product is
exact before it is rounded, and a quotient is cut off behind bits enough, with its rest kept
for the rounding.

Unpacking gives the parts of a double (`unpack_of_parts`), so the closest double of a negated
quotient is the negated one (`neg_closest`).

Main statements: `ofModel_round`, and of products and quotients `ofModel_mul` and
`ofModel_div`.
-/
import Gridbook.Proofs.Real.Closest
import Gridbook.Proofs.Real.Rounding

namespace Gridbook.Real

open Float.Model Float.Model.UnpackedFloat

/-! ### Packing -/

theorem toNat_packComponents (e : BitVec 11) (m : BitVec 52) :
    (packComponents Format.binary64 .positive e m).toNat = e.toNat * 2 ^ 52 + m.toNat := by
  show ((0#1 ++ e) ++ m).toNat = _
  rw [BitVec.toNat_append, BitVec.toNat_append, ← Nat.shiftLeft_add_eq_or_of_lt m.isLt,
    Nat.shiftLeft_eq]
  congr 2
  show (0#1).toNat <<< 11 ||| e.toNat = e.toNat
  rw [show (0#1).toNat = 0 from rfl, Nat.zero_shiftLeft, Nat.zero_or]

/-- A number with its leading bit in place is packed as its scale and its digits. -/
theorem toNat_pack {m s : Nat} {e : Int} (hm : 0 < m) (hs : e = (s : Int) - 1074)
    (hlt : m < 2 ^ 53) (hlead : 0 < s → 2 ^ 52 ≤ m) (hle : s ≤ 2045) :
    (UnpackedFloat.pack Format.binary64 (.finite .positive m e hm)).toNat = s * 2 ^ 52 + m := by
  have hbiased : (e + Format.binary64.exponentBias + 52).toNat = s + 1 := by
    show (e + 1023 + 52).toNat = s + 1
    omega
  have hbits : Format.binary64.mantissaBits = 53 := rfl
  unfold UnpackedFloat.pack
  dsimp only
  rw [hbits, if_neg (by omega)]
  by_cases hnormal : 2 ^ 52 ≤ m
  · -- the leading bit is left out, and the exponent that is written is one above the scale
    have hlog : m.log2 = 52 := (Nat.log2_eq_iff (by omega)).2 ⟨hnormal, hlt⟩
    rw [if_pos (by omega), toNat_packComponents, BitVec.toNat_ofNat, BitVec.toNat_ofNat]
    omega
  · have hzero : s = 0 := by omega
    have hlog : m.log2 < 52 := (Nat.log2_lt (by omega)).2 (by omega)
    rw [if_neg (by omega), toNat_packComponents, BitVec.toNat_ofNat]
    show 0 * 2 ^ 52 + m % 2 ^ 52 = _
    omega

/-- A model is told by its bits. -/
theorem model_eq_of_toBits {v w : Float.Model} (h : v.toBits = w.toBits) : v = w := by
  cases v
  cases w
  cases h
  rfl

/-- A packed double is told by its bits. -/
theorem ofModel_pack {u : UnpackedFloat} {b : Nat}
    (h : (UnpackedFloat.pack Format.binary64 u).toNat = b) (hb : b < infinityBits) :
    Float.ofModel (Float.Model.pack u) = Float.ofBits (UInt64.ofNat b) := by
  have h11 : twoTo 11 = 2048 := rfl
  have h52 : twoTo 52 = 4503599627370496 := rfl
  have hlast : infinityBits = 2047 * twoTo 52 := rfl
  rw [hlast, h52] at hb
  have hnat : (UInt64.ofNat b).toNat = b := UInt64.toNat_ofNat_of_lt' (by rw [UInt64.size]; omega)
  have hkept : (Float.ofBits (UInt64.ofNat b)).toBits = UInt64.ofNat b :=
    toBits_ofBits (by rw [hnat, h11, h52]; omega)
  have hsame : UInt64.ofBitVec (UnpackedFloat.pack Format.binary64 u) = UInt64.ofNat b := by
    refine UInt64.toNat.inj ?_
    rw [hnat]
    exact h
  have hmodel : Float.Model.pack u = (Float.ofBits (UInt64.ofNat b)).toModel :=
    model_eq_of_toBits (hsame.trans hkept.symm)
  rw [hmodel]

/-- The infinity above the finite doubles. -/
def infinity : Float :=
  .ofModel (Float.Model.pack (.infinity .positive))

theorem overflow_eq : (1 / 0 : Float) = infinity :=
  congrArg Float.ofModel (by decide +kernel :
    (1 : Float).toModel / (0 : Float).toModel = Float.Model.pack (.infinity .positive))

/-! ### Rounding -/

section

variable {num den : Nat} {e : Int}

/-- The exponent at which 53 bits are left is the scale of the number. -/
theorem isScale_keptExponent (hden : 0 < den) (hplaced : e ≤ keptExponent (num / den) e) {s : Nat}
    (hs : keptExponent (num / den) e = (s : Int) - 1074) :
    IsScale (num * twoTo e.toNat) (den * twoTo (-e).toNat) s := by
  have hunits : unitsPerOne = twoTo 1074 := rfl
  have hhigh : num < twoTo ((num / den).log2 + 1) * den :=
    (Nat.div_lt_iff_lt_mul hden).1 Nat.lt_log2_self
  unfold keptExponent at hplaced hs
  constructor
  · calc num * twoTo e.toNat * unitsPerOne
        < twoTo ((num / den).log2 + 1) * den * twoTo e.toNat * unitsPerOne :=
          Nat.mul_lt_mul_of_pos_right (Nat.mul_lt_mul_of_pos_right hhigh (twoTo_pos _))
            (twoTo_pos 1074)
      _ = den * twoTo ((num / den).log2 + 1 + e.toNat + 1074) := by
          rw [hunits, twoTo_add (_ + e.toNat) 1074, twoTo_add _ e.toNat]
          ring
      _ ≤ den * twoTo (53 + (-e).toNat + s) := Nat.mul_le_mul_left _ (twoTo_le (by omega))
      _ = twoTo 53 * (den * twoTo (-e).toNat * twoTo s) := by
          rw [twoTo_add (53 + _) s, twoTo_add 53 _]
          ring
  · intro hpos
    have hne : num / den ≠ 0 := by
      intro hzero
      rw [hzero, Nat.log2_zero] at hplaced hs
      omega
    have hlow : twoTo (num / den).log2 * den ≤ num :=
      (Nat.le_div_iff_mul_le hden).1 (Nat.log2_self_le hne)
    have hexponent : 52 + (-e).toNat + s = (num / den).log2 + e.toNat + 1074 := by omega
    calc twoTo 52 * (den * twoTo (-e).toNat * twoTo s)
        = den * twoTo (52 + (-e).toNat + s) := by
          rw [twoTo_add (52 + _) s, twoTo_add 52 _]
          ring
      _ = den * twoTo ((num / den).log2 + e.toNat + 1074) := by rw [hexponent]
      _ = twoTo (num / den).log2 * den * twoTo e.toNat * unitsPerOne := by
          rw [hunits, twoTo_add (_ + e.toNat) 1074, twoTo_add _ e.toNat]
          ring
      _ ≤ num * twoTo e.toNat * unitsPerOne :=
          Nat.mul_le_mul_right _ (Nat.mul_le_mul_right _ hlow)

/-- The digits of the number at its scale are what its mantissa is rounded to. -/
theorem digitsAt_keptExponent (hden : 0 < den) (hplaced : e ≤ keptExponent (num / den) e) {s : Nat}
    (hs : keptExponent (num / den) e = (s : Int) - 1074) :
    digitsAt (num * twoTo e.toNat) (den * twoTo (-e).toNat) s =
      rounded (num / den) e (accuracyOfFraction (num % den) den) := by
  have hpow : 0 < 2 ^ (keptExponent (num / den) e - e).toNat := Nat.two_pow_pos _
  rw [rounded_eq hden]
  refine roundHalfEven_congr (Nat.mul_pos (Nat.mul_pos hden (twoTo_pos _)) (twoTo_pos s))
    (Nat.mul_pos hden hpow) ?_
  show num * twoTo e.toNat * twoTo 1074 * (den * twoTo (keptExponent (num / den) e - e).toNat) =
    num * (den * twoTo (-e).toNat * twoTo s)
  calc num * twoTo e.toNat * twoTo 1074 * (den * twoTo (keptExponent (num / den) e - e).toNat)
      = num * den * twoTo (e.toNat + 1074 + (keptExponent (num / den) e - e).toNat) := by
        rw [twoTo_add (e.toNat + 1074), twoTo_add e.toNat 1074]
        ring
    _ = num * den * twoTo ((-e).toNat + s) := by
        congr 2
        omega
    _ = num * (den * twoTo (-e).toNat * twoTo s) := by
        rw [twoTo_add]
        ring

theorem ofNearest_of_lt {b : Nat} (h : b < infinityBits) :
    ofNearest false b = Float.ofBits (UInt64.ofNat b) := by
  unfold ofNearest
  rw [if_pos h, if_neg Bool.false_ne_true, Nat.add_zero]

theorem ofModel_zero : Float.ofModel (Float.Model.pack (.zero .positive)) = ofNearest false 0 := by
  have hbits : (UnpackedFloat.pack Format.binary64 (.zero .positive)).toNat = 0 := rfl
  have hlast : infinityBits = 2047 * twoTo 52 := rfl
  have hpos : 0 < infinityBits := by
    rw [hlast]
    exact Nat.mul_pos (by decide) (twoTo_pos 52)
  rw [ofNearest_of_lt hpos]
  exact ofModel_pack hbits hpos

theorem ofModel_infinity {b : Nat} (h : infinityBits ≤ b) :
    Float.ofModel (Float.Model.pack (.infinity .positive)) = ofNearest false b := by
  unfold ofNearest
  rw [if_neg (Nat.not_lt.2 h)]
  exact overflow_eq.symm

/-- Digits that fill a scale, or one more, are cut to 53 bits, which may move them to the next
scale. -/
theorem exists_cut_digits {r s : Nat} (hr : r ≤ twoTo 53) (hlead : 0 < s → twoTo 52 ≤ r) :
    ∃ m t : Nat, r / 2 ^ (r.log2 - 52) = m ∧ s + (r.log2 - 52) = t ∧ m < 2 ^ 53 ∧
      (0 < t → 2 ^ 52 ≤ m) ∧ s * twoTo 52 + r = t * twoTo 52 + m := by
  rcases Nat.lt_or_ge r (twoTo 53) with hless | hfull
  · have hlog : r.log2 - 52 = 0 := by
      rcases Nat.eq_zero_or_pos r with rfl | hpos
      · rfl
      · have hbits := (Nat.log2_lt (by omega)).2 hless
        omega
    rw [hlog, Nat.pow_zero, Nat.div_one]
    exact ⟨r, s, rfl, rfl, hless, hlead, rfl⟩
  · obtain rfl : r = twoTo 53 := Nat.le_antisymm hr hfull
    have hlog : (twoTo 53).log2 - 52 = 1 := by decide +kernel
    have h52 : twoTo 52 = 4503599627370496 := rfl
    have h53 : twoTo 53 = 9007199254740992 := rfl
    rw [hlog]
    refine ⟨twoTo 52, s + 1, by decide +kernel, rfl, by decide +kernel, fun _ => Nat.le_refl _, ?_⟩
    rw [h52, h53]
    omega

/-- Digits that fill a scale, or one more, are packed as its double. -/
theorem ofModel_finite {r s : Nat} {d : Int} (hd : d = (s : Int) - 1074) (hr : r ≤ twoTo 53)
    (hlead : 0 < s → twoTo 52 ≤ r) (h : 0 < r / 2 ^ (r.log2 - 52)) :
    Float.ofModel (Float.Model.pack
      (.finite .positive (r / 2 ^ (r.log2 - 52)) (d + (r.log2 - 52 : Nat)) h)) =
        ofNearest false (s * twoTo 52 + r) := by
  have h52 : twoTo 52 = 4503599627370496 := rfl
  have hlast : infinityBits = 2047 * twoTo 52 := rfl
  obtain ⟨m, t, hm, ht, hlt, hlead', hsame⟩ := exists_cut_digits hr hlead
  have hpos : 0 < m := hm ▸ h
  have hfinite : UnpackedFloat.finite .positive (r / 2 ^ (r.log2 - 52))
      (d + (r.log2 - 52 : Nat)) h = .finite .positive m ((t : Int) - 1074) hpos := by
    have hexponent : d + (r.log2 - 52 : Nat) = (t : Int) - 1074 := by omega
    subst hm
    rw [hexponent]
  rw [hfinite, hsame]
  by_cases hle : t ≤ 2045
  · have hbits := toNat_pack hpos rfl hlt hlead' hle
    have hfits : t * twoTo 52 + m < infinityBits := by
      rw [hlast, h52]
      omega
    rw [ofNearest_of_lt hfits]
    exact ofModel_pack hbits hfits
  · -- beyond the last scale an infinity is packed
    have hfits : ¬ Fits (.finite .positive m ((t : Int) - 1074) hpos) := by
      show ¬ (t : Int) - 1074 ≤ 971
      omega
    rw [pack_of_not_fits hfits]
    refine ofModel_infinity ?_
    have hm52 := hlead' (by omega)
    rw [hlast, h52]
    omega

/-- A quotient that is rounded with its exact rest gives its closest double. -/
theorem ofModel_round (num : Nat) (hden : 0 < den) (hplaced : e ≤ keptExponent (num / den) e) :
    Float.ofModel (Float.Model.pack (roundWithAccuracy Format.binary64 .positive (num / den) e
      (accuracyOfFraction (num % den) den))) =
        closest false (num * twoTo e.toNat) (den * twoTo (-e).toNat) := by
  obtain ⟨s, hs⟩ : ∃ s : Nat, keptExponent (num / den) e = (s : Int) - 1074 :=
    ⟨(keptExponent (num / den) e + 1074).toNat, by unfold keptExponent; omega⟩
  have hscale := isScale_keptExponent hden hplaced hs
  have hden' : 0 < den * twoTo (-e).toNat := Nat.mul_pos hden (twoTo_pos _)
  have hr := hscale.digits_le hden'
  have hlead := hscale.le_digits hden'
  have hbits := hscale.nearestBits_eq hden'
  rw [digitsAt_keptExponent hden hplaced hs] at hr hlead hbits
  rw [closest_eq, hbits, round_eq]
  generalize rounded (num / den) e (accuracyOfFraction (num % den) den) = r at hr hlead
  dsimp only
  split
  · next hzero =>
    -- no digits are left, and only the lowest scale has none
    have hnone : r = 0 := cut_eq_zero_iff.1 hzero
    have hscaled : s = 0 := by
      by_contra hpos
      have := hlead (Nat.pos_of_ne_zero hpos)
      rw [hnone] at this
      exact absurd this (by decide)
    rw [hnone, hscaled, Nat.zero_mul]
    exact ofModel_zero
  · next hne =>
    refine ofModel_finite ?_ hr hlead (Nat.pos_of_ne_zero hne)
    omega

end

/-! ### Products and quotients -/

section

variable {k l : Nat} {d e : Int} {hk : 0 < k} {hl : 0 < l}

/-- An exact number with enough bits is rounded to its closest double. -/
theorem ofModel_exact (hplaced : e ≤ keptExponent k e) :
    Float.ofModel (Float.Model.pack (roundWithAccuracy Format.binary64 .positive k e .exact)) =
      closest false (k * twoTo e.toNat) (twoTo (-e).toNat) := by
  have hround := ofModel_round k Nat.one_pos (by rwa [Nat.div_one])
  rw [Nat.div_one, Nat.mod_one, Nat.one_mul] at hround
  exact hround

/-- A product with enough bits is the closest double of the exact one. -/
theorem ofModel_mul (hplaced : d + e ≤ keptExponent (k * l) (d + e)) :
    Float.ofModel (Float.Model.pack (UnpackedFloat.mul Format.binary64
      (.finite .positive k d hk) (.finite .positive l e hl))) =
        closest false (k * l * twoTo (d + e).toNat) (twoTo (-(d + e)).toNat) :=
  ofModel_exact hplaced

/-- A quotient is cut off behind enough bits. -/
theorem target_le_keptExponent (hk : 0 < k) (hl : 0 < l) {t : Int} {n : Nat}
    (ht : t = min (d - e) (max ((k.log2 : Int) + 1 + d - (l.log2 + 1 + e) - 53) (-1074)))
    (hn : d - e - t = n) : t ≤ keptExponent (k * 2 ^ n / l) t := by
  unfold keptExponent
  rcases le_or_gt t (-1074) with hlow | hhigh
  · omega
  · have hbits : 2 ^ (k.log2 + n - l.log2 - 1) ≤ k * 2 ^ n / l := by
      rw [Nat.le_div_iff_mul_le hl]
      calc 2 ^ (k.log2 + n - l.log2 - 1) * l
          ≤ 2 ^ (k.log2 + n - l.log2 - 1) * 2 ^ (l.log2 + 1) :=
            Nat.mul_le_mul_left _ (Nat.le_of_lt Nat.lt_log2_self)
        _ = 2 ^ (k.log2 + n) := by
            rw [← Nat.pow_add]
            congr 1
            omega
        _ = 2 ^ k.log2 * 2 ^ n := Nat.pow_add 2 _ _
        _ ≤ k * 2 ^ n := Nat.mul_le_mul_right _ (Nat.log2_self_le (Nat.ne_of_gt hk))
    have hne : k * 2 ^ n / l ≠ 0 := Nat.ne_of_gt (Nat.lt_of_lt_of_le (Nat.two_pow_pos _) hbits)
    have hlog := (Nat.le_log2 hne).2 hbits
    omega

/-- A quotient is the closest double of the exact one. -/
theorem ofModel_div :
    Float.ofModel (Float.Model.pack (UnpackedFloat.div Format.binary64
      (.finite .positive k d hk) (.finite .positive l e hl))) =
        closest false (k * twoTo (d - e).toNat) (l * twoTo (-(d - e)).toNat) := by
  have htarget : Format.binary64.targetExponent (totalExponent k d - totalExponent l e) =
      max ((k.log2 : Int) + 1 + d - (l.log2 + 1 + e) - 53) (-1074) := rfl
  show Float.ofModel (Float.Model.pack (roundWithAccuracy Format.binary64 .positive
    (k <<< (d - e - min (d - e) (Format.binary64.targetExponent _)).toNat / l)
    (min (d - e) (Format.binary64.targetExponent _))
    (accuracyOfFraction (k <<< (d - e - min (d - e) (Format.binary64.targetExponent _)).toNat % l)
      l))) = _
  rw [htarget]
  generalize ht : min (d - e) (max ((k.log2 : Int) + 1 + d - (l.log2 + 1 + e) - 53) (-1074)) = t
  obtain ⟨n, hn⟩ : ∃ n : Nat, d - e - t = n := ⟨(d - e - t).toNat, by omega⟩
  rw [hn, Int.toNat_natCast, Nat.shiftLeft_eq,
    ofModel_round _ hl (target_le_keptExponent hk hl ht.symm hn)]
  refine closest_congr false (Nat.mul_pos hl (twoTo_pos _)) (Nat.mul_pos hl (twoTo_pos _)) ?_
  show k * twoTo n * twoTo t.toNat * (l * twoTo (-(d - e)).toNat) =
    k * twoTo (d - e).toNat * (l * twoTo (-t).toNat)
  have hexponent : n + t.toNat + (-(d - e)).toNat = (d - e).toNat + (-t).toNat := by omega
  calc k * twoTo n * twoTo t.toNat * (l * twoTo (-(d - e)).toNat)
      = k * l * twoTo (n + t.toNat + (-(d - e)).toNat) := by
        rw [twoTo_add (n + t.toNat), twoTo_add n]
        ring
    _ = k * l * twoTo ((d - e).toNat + (-t).toNat) := by rw [hexponent]
    _ = k * twoTo (d - e).toNat * (l * twoTo (-t).toNat) := by
        rw [twoTo_add]
        ring

end

/-! ### Unpacked doubles -/

/-- The sign of a number that is negated if `negative`. -/
def signOf (negative : Bool) : Sign :=
  if negative then .negative else .positive

/-- A number by its parts; without digits it is a zero. -/
def unpacked (negative : Bool) (m s : Nat) : UnpackedFloat :=
  if hm : 0 < m then .finite (signOf negative) m ((s : Int) - 1074) hm else .zero (signOf negative)

theorem finite_congr {sign sign' : Sign} {m m' : Nat} {e e' : Int} {hm : 0 < m} {hm' : 0 < m'}
    (hsign : sign = sign') (hdigits : m = m') (he : e = e') :
    UnpackedFloat.finite sign m e hm = .finite sign' m' e' hm' := by
  subst hsign hdigits he
  rfl

section

variable (x : Float)

theorem toNat_unpackExponent : (@unpackExponent Format.binary64 x.toModel.toBits.toBitVec).toNat =
    x.toBits.toNat / twoTo 52 % twoTo 11 := by
  have h11 : twoTo 11 = 2 ^ 11 := rfl
  have h52 : twoTo 52 = 2 ^ 52 := rfl
  rw [h11, h52, ← Nat.shiftRight_eq_div_pow]
  rfl

theorem toNat_unpackMantissa : (@unpackMantissa Format.binary64 x.toModel.toBits.toBitVec).toNat =
    x.toBits.toNat % twoTo 52 := by
  have h52 : twoTo 52 = 2 ^ 52 := rfl
  rw [h52]
  rfl

theorem toNat_unpackSign : (@unpackSign Format.binary64 x.toModel.toBits.toBitVec).toNat =
    x.toBits.toNat / twoTo 63 % 2 := by
  have h63 : twoTo 63 = 2 ^ 63 := rfl
  rw [h63, ← Nat.shiftRight_eq_div_pow]
  rfl

theorem sign_unpackSign : Sign.ofBitVec (@unpackSign Format.binary64 x.toModel.toBits.toBitVec) =
    signOf (decide (twoTo 63 ≤ x.toBits.toNat)) := by
  have hsmall : x.toBits.toNat < 2 * twoTo 63 := x.toBits.toNat_lt
  by_cases hnegative : twoTo 63 ≤ x.toBits.toNat
  · have hbit : x.toBits.toNat / twoTo 63 = 1 :=
      Nat.div_eq_of_lt_le (by rwa [Nat.one_mul]) hsmall
    rw [decide_eq_true hnegative]
    refine if_neg fun heq => ?_
    have hzero := congrArg BitVec.toNat heq
    rw [toNat_unpackSign, hbit] at hzero
    exact absurd hzero (by decide)
  · rw [decide_eq_false hnegative]
    refine if_pos (BitVec.eq_of_toNat_eq ?_)
    rw [toNat_unpackSign, Nat.div_eq_of_lt (Nat.not_le.1 hnegative)]
    rfl

end

/-- A finite double is unpacked as its parts. -/
theorem unpack_of_parts {x : Float} {negative : Bool} {m s : Nat}
    (h : parts x = .finite negative m s) : x.toModel.unpack = unpacked negative m s := by
  have hexponent := toNat_unpackExponent x
  have hmantissa := toNat_unpackMantissa x
  have hsign := sign_unpackSign x
  unfold parts at h
  dsimp only at h
  rw [← hexponent, ← hmantissa] at h
  generalize hfield : @unpackExponent Format.binary64 x.toModel.toBits.toBitVec = field
    at h hexponent
  split at h
  · split at h <;> cases h
  next hlast =>
  have hmax : field ≠ -1#11 := fun heq => hlast (congrArg BitVec.toNat heq)
  unfold Float.Model.unpack UnpackedFloat.unpack unpacked
  dsimp only
  rw [hsign, hfield, if_neg hmax]
  split at h
  · next hzero =>
    -- without a leading bit, so that a zero stands here too
    obtain ⟨rfl, rfl, rfl⟩ := Parts.finite.inj h
    have hnone : field = 0#11 := BitVec.eq_of_toNat_eq hzero
    rw [if_pos hnone]
    by_cases hsome : @unpackMantissa Format.binary64 x.toModel.toBits.toBitVec = 0#52
    · have hm : ¬ 0 < (@unpackMantissa Format.binary64 x.toModel.toBits.toBitVec).toNat := by
        rw [hsome]
        decide
      rw [dif_pos hsome, dif_neg hm]
    · have hm : 0 < (@unpackMantissa Format.binary64 x.toModel.toBits.toBitVec).toNat :=
        Nat.pos_of_ne_zero fun heq => hsome (BitVec.eq_of_toNat_eq heq)
      rw [dif_neg hsome, dif_pos hm]
      refine finite_congr rfl rfl ?_
      show (field.toNat : Int) - (1023 + 52) + 1 = _
      omega
  · next hnormal =>
    -- the leading bit is put in front of the mantissa
    obtain ⟨rfl, hm', rfl⟩ := Parts.finite.inj h
    have hsome : field ≠ 0#11 := fun heq => hnormal (congrArg BitVec.toNat heq)
    have hpos : 0 < m := by
      rw [← hm']
      exact Nat.add_pos_right _ (twoTo_pos 52)
    rw [if_neg hsome, dif_pos hpos]
    refine finite_congr rfl ?_ ?_
    · have hbound := (@unpackMantissa Format.binary64 x.toModel.toBits.toBitVec).isLt
      rw [BitVec.toNat_append, ← Nat.shiftLeft_add_eq_or_of_lt hbound, Nat.shiftLeft_eq, ← hm',
        Nat.add_comm]
      rfl
    · show (field.toNat : Int) - (1023 + 52) = _
      omega

theorem unpack_of_parts_pos {x : Float} {negative : Bool} {m s : Nat}
    (h : parts x = .finite negative m s) (hm : 0 < m) :
    x.toModel.unpack = .finite (signOf negative) m ((s : Int) - 1074) hm :=
  (unpack_of_parts h).trans (dif_pos hm)

/-- A double is what is packed of it when it has been unpacked. -/
theorem ofModel_pack_unpack (x : Float) :
    Float.ofModel (Float.Model.pack x.toModel.unpack) = x := by
  have hmodel : Float.Model.pack x.toModel.unpack = x.toModel :=
    model_eq_of_toBits (congrArg UInt64.ofBitVec (pack_unpack_of_valid x.toModel.valid))
  rw [hmodel]

/-- The closest double of the negated quotient is the negated one. -/
theorem neg_closest {num den : Nat} (hden : 0 < den) :
    -closest false num den = closest true num den := by
  rcases closest_cases hden (isScale_log2 _ hden) with ⟨m, t, -, -, hparts⟩ | ⟨-, hinfinite⟩
  · have hfalse := unpack_of_parts (hparts false)
    have htrue := unpack_of_parts (hparts true)
    have hneg : (closest false num den).toModel.unpack.neg =
        (closest true num den).toModel.unpack := by
      rw [hfalse, htrue]
      unfold unpacked
      split
      · rfl
      · rfl
    rw [← ofModel_pack_unpack (closest true num den), ← hneg]
    rfl
  · rw [hinfinite, hinfinite]
    exact congrArg Float.ofModel (by decide +kernel :
      (1 / 0 : Float).toModel.neg = (-1 / 0 : Float).toModel)

/-! ### Products beyond the doubles -/

theorem parts_pack_infinity (negative : Bool) :
    parts (.ofModel (Float.Model.pack (.infinity (signOf negative)))) = .infinite negative := by
  cases negative with
  | false => decide +kernel
  | true => decide +kernel

/-- A product beyond the exponents of the doubles is an infinity. -/
theorem parts_mul_of_large {x y : Float} {negative : Bool} {k l s t : Nat}
    (hx : parts x = .finite negative k s) (hy : parts y = .finite false l t) (hk : 0 < k)
    (hl : 0 < l) (hlarge : 3120 ≤ s + t) : parts (x * y) = .infinite negative := by
  have hsign : signOf negative * signOf false = signOf negative := by
    cases negative with
    | false => rfl
    | true => rfl
  have hfits : ¬ Fits (roundWithAccuracy Format.binary64 (signOf negative) (k * l)
      ((s : Int) - 1074 + ((t : Int) - 1074)) .exact) := by
    have hplaced : -1074 ≤ (s : Int) - 1074 + ((t : Int) - 1074) := by omega
    have hpos := rounded_pos (Nat.mul_pos hk hl) hplaced
    rw [fits_round]
    omega
  have hproduct : x * y = Float.ofModel (Float.Model.pack (UnpackedFloat.mul Format.binary64
      (.finite (signOf negative) k ((s : Int) - 1074) hk)
      (.finite (signOf false) l ((t : Int) - 1074) hl))) := by
    rw [← unpack_of_parts_pos hx hk, ← unpack_of_parts_pos hy hl]
    rfl
  have hrounded : UnpackedFloat.mul Format.binary64
      (.finite (signOf negative) k ((s : Int) - 1074) hk)
      (.finite (signOf false) l ((t : Int) - 1074) hl) =
        roundWithAccuracy Format.binary64 (signOf negative * signOf false) (k * l)
          ((s : Int) - 1074 + ((t : Int) - 1074)) .exact := rfl
  rw [hproduct, hrounded, hsign, pack_round_of_not_fits hfits, parts_pack_infinity]


end Gridbook.Real
