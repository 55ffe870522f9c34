/-
Gridbook/Proofs/Real/Closest.lean

The double that is closest to a quotient.  The doubles are points of a grid: the `level`
of a double is its value in units of the smallest positive one, and an infinity stands
where the power of two would that follows the largest finite double.  Up to `2^53` steps
of every size are points of the grid, so a point is a multiple of a given step, or at most
`2^52` times this step (`OnGrid.dvd_or_le`).

To round a quotient, its scale is looked for, the step that leaves 53 bits; there is only
one (`IsScale.unique`).  So the closest double depends on the value of the quotient alone
(`closest_congr`).

Main statement: no point of the grid is closer to the quotient than the level of its
closest double (`nearest_closest`).
-/
import Gridbook.Proofs.Real.Whole

namespace Gridbook.Real

/-- The double of a nearest double's bits, sign bit apart, negated if `negative`; an
infinity beyond the finite doubles. -/
def ofNearest (negative : Bool) (bits : Nat) : Float :=
  if bits < infinityBits then
    Float.ofBits (UInt64.ofNat (bits + if negative then twoTo 63 else 0))
  else if negative then -1 / 0 else 1 / 0

/-- The closest double is told by its bits. -/
theorem closest_eq (negative : Bool) (num den : Nat) :
    closest negative num den = ofNearest negative (nearestBits num den) := by
  unfold closest ofRatio? ofNearest
  dsimp only
  split
  · rfl
  · rfl

/-! ### Points of the grid -/

/-- Is the number at most `2^53` steps of a size that doubles have? -/
def OnGrid (n : Int) : Prop :=
  ∃ m s, m ≤ twoTo 53 ∧ s ≤ 2045 ∧ n.natAbs = m * twoTo s

/-- The power of two that follows the finite doubles, in units of the smallest one. -/
@[irreducible]
def gridEnd : Nat := twoTo 53 * twoTo 2045

/-- The value of a double in units of the smallest one; an infinity stands at the end of
the grid. -/
def level (x : Float) : Int :=
  match parts x with
  | .infinite false => gridEnd
  | .infinite true => -gridEnd
  | p => p.height

theorem twoTo_add (m n : Nat) : twoTo (m + n) = twoTo m * twoTo n :=
  Nat.pow_add 2 m n

theorem twoTo_53 : twoTo 53 = twoTo 52 * 2 :=
  twoTo_succ 52

theorem cast_twoTo (n : Nat) : ((twoTo n : Nat) : ℚ) = 2 ^ n :=
  Nat.cast_pow 2 n

theorem gridEnd_eq : gridEnd = twoTo 53 * twoTo 2045 := by
  unfold gridEnd
  rfl

theorem OnGrid.neg {n : Int} (h : OnGrid n) : OnGrid (-n) := by
  obtain ⟨m, s, hm, hs, hn⟩ := h
  exact ⟨m, s, hm, hs, by rw [Int.natAbs_neg, hn]⟩

theorem onGrid_mul {m s : Nat} (hm : m ≤ twoTo 53) (hs : s ≤ 2045) :
    OnGrid ((m * twoTo s : Nat) : Int) :=
  ⟨m, s, hm, hs, Int.natAbs_natCast _⟩

theorem onGrid_zero : OnGrid 0 :=
  ⟨0, 0, Nat.zero_le _, Nat.zero_le _, rfl⟩

theorem onGrid_gridEnd : OnGrid gridEnd :=
  ⟨twoTo 53, 2045, Nat.le_refl _, Nat.le_refl _, gridEnd_eq⟩

theorem OnGrid.le_gridEnd {n : Int} (h : OnGrid n) : n ≤ gridEnd := by
  obtain ⟨m, s, hm, hs, hn⟩ := h
  have hle : m * twoTo s ≤ gridEnd := by
    rw [gridEnd_eq]
    exact Nat.mul_le_mul hm (twoTo_le hs)
  omega

/-- A point of the grid is a multiple of the step, or the step is too large for it. -/
theorem OnGrid.dvd_or_le {n : Int} (h : OnGrid n) (s : Nat) :
    (twoTo s : Int) ∣ n ∨ 0 < s ∧ n ≤ (twoTo 52 * twoTo s : Nat) := by
  obtain ⟨m, t, hm, -, hn⟩ := h
  rcases Nat.lt_or_ge t s with hlt | hge
  · -- 53 bits at a smaller step are 52 at this one
    refine .inr ⟨by omega, ?_⟩
    have hle : n.natAbs ≤ twoTo 52 * twoTo s := by
      calc n.natAbs = m * twoTo t := hn
        _ ≤ twoTo 53 * twoTo t := Nat.mul_le_mul_right _ hm
        _ = twoTo 52 * twoTo (t + 1) := by rw [twoTo_succ t, twoTo_53]; ring
        _ ≤ twoTo 52 * twoTo s := Nat.mul_le_mul_left _ (twoTo_le hlt)
    omega
  · refine .inl (Int.natCast_dvd.2 ?_)
    rw [hn]
    exact Nat.dvd_trans (twoTo_dvd hge) (Nat.dvd_mul_left _ _)

/-! ### Doubles on the grid -/

theorem parts_bounds {x : Float} {negative : Bool} {m s : Nat}
    (h : parts x = .finite negative m s) : m < twoTo 53 ∧ s ≤ 2045 := by
  have h11 : twoTo 11 = 2048 := rfl
  have h52 : twoTo 52 = 4503599627370496 := rfl
  have h53 : twoTo 53 = 9007199254740992 := rfl
  unfold parts at h
  dsimp only at h
  rw [h11, h52] at h
  rw [h53]
  split at h
  · split at h <;> cases h
  split at h
  · cases h
    omega
  · cases h
    omega

theorem onGrid_level (x : Float) : OnGrid (level x) := by
  unfold level
  cases hparts : parts x with
  | nan => exact onGrid_zero
  | infinite negative =>
    cases negative with
    | false => exact onGrid_gridEnd
    | true => exact onGrid_gridEnd.neg
  | finite negative m s =>
    obtain ⟨hm, hs⟩ := parts_bounds hparts
    have hgrid := onGrid_mul (Nat.le_of_lt hm) hs
    cases negative with
    | false => exact hgrid
    | true => exact hgrid.neg

/-! ### Scales -/

/-- The step of this size leaves 53 bits of the quotient, or fewer if it is the smallest
one. -/
structure IsScale (num den s : Nat) : Prop where
  high : num * unitsPerOne < twoTo 53 * (den * twoTo s)
  low : 0 < s → twoTo 52 * (den * twoTo s) ≤ num * unitsPerOne

section

variable {num den num' den' s t : Nat}

theorem isScale_log2 (num : Nat) (hden : 0 < den) :
    IsScale num den ((num * unitsPerOne / den).log2 - 52) := by
  obtain ⟨hhigh, hlow⟩ := scale_bounds (u := num * unitsPerOne) hden rfl
  exact ⟨hhigh, hlow⟩

theorem IsScale.le (h : IsScale num den s) (h' : IsScale num den t) : s ≤ t := by
  by_contra hlt
  have hstep : twoTo 53 * (den * twoTo t) ≤ twoTo 52 * (den * twoTo s) := by
    calc twoTo 53 * (den * twoTo t) = twoTo 52 * (den * twoTo (t + 1)) := by
          rw [twoTo_succ t, twoTo_53]; ring
      _ ≤ twoTo 52 * (den * twoTo s) :=
          Nat.mul_le_mul_left _ (Nat.mul_le_mul_left _ (twoTo_le (by omega)))
  have hlow := h.low (by omega)
  have hhigh := h'.high
  omega

theorem IsScale.unique (h : IsScale num den s) (h' : IsScale num den t) : s = t :=
  Nat.le_antisymm (h.le h') (h'.le h)

theorem IsScale.congr (hratio : num * den' = num' * den) (hden : 0 < den) (hden' : 0 < den')
    (h : IsScale num den s) : IsScale num' den' s := by
  have hcross : num' * unitsPerOne * den = num * unitsPerOne * den' := by
    rw [Nat.mul_right_comm, ← hratio, Nat.mul_right_comm]
  constructor
  · refine Nat.lt_of_mul_lt_mul_right (a := den) ?_
    calc num' * unitsPerOne * den = num * unitsPerOne * den' := hcross
      _ < twoTo 53 * (den * twoTo s) * den' := Nat.mul_lt_mul_of_pos_right h.high hden'
      _ = twoTo 53 * (den' * twoTo s) * den := by ring
  · intro hs
    refine Nat.le_of_mul_le_mul_right ?_ hden
    calc twoTo 52 * (den' * twoTo s) * den = twoTo 52 * (den * twoTo s) * den' := by ring
      _ ≤ num * unitsPerOne * den' := Nat.mul_le_mul_right _ (h.low hs)
      _ = num' * unitsPerOne * den := hcross.symm

/-- The digits that a scale leaves. -/
def digitsAt (num den s : Nat) : Nat :=
  roundHalfEven (num * unitsPerOne) (den * twoTo s)

theorem IsScale.nearestBits_eq (h : IsScale num den s) (hden : 0 < den) :
    nearestBits num den = s * twoTo 52 + digitsAt num den s := by
  rw [h.unique (isScale_log2 _ hden)]
  rfl

theorem IsScale.digits_le (h : IsScale num den s) (hden : 0 < den) :
    digitsAt num den s ≤ twoTo 53 := by
  have hpos : 0 < den * twoTo s := Nat.mul_pos hden (twoTo_pos s)
  have hlt := (Nat.div_lt_iff_lt_mul hpos).2 h.high
  exact Nat.le_trans (roundHalfEven_le _ _) hlt

theorem IsScale.le_digits (h : IsScale num den s) (hden : 0 < den) (hs : 0 < s) :
    twoTo 52 ≤ digitsAt num den s := by
  have hpos : 0 < den * twoTo s := Nat.mul_pos hden (twoTo_pos s)
  exact Nat.le_trans ((Nat.le_div_iff_mul_le hpos).2 (h.low hs)) (le_roundHalfEven _ _)

/-! ### Rounding depends on the value -/

theorem roundHalfEven_mul_right (n d : Nat) {k : Nat} (hk : 0 < k) :
    roundHalfEven (n * k) (d * k) = roundHalfEven n d := by
  have hless : 2 * (n % d * k) < d * k ↔ 2 * (n % d) < d := by
    rw [← Nat.mul_assoc, Nat.mul_lt_mul_right hk]
  have hmore : d * k < 2 * (n % d * k) ↔ d < 2 * (n % d) := by
    rw [← Nat.mul_assoc, Nat.mul_lt_mul_right hk]
  unfold roundHalfEven
  simp only [Nat.mul_div_mul_right _ _ hk, Nat.mul_mod_mul_right, hless, hmore]

theorem roundHalfEven_congr {n d n' d' : Nat} (hd : 0 < d) (hd' : 0 < d')
    (h : n * d' = n' * d) : roundHalfEven n d = roundHalfEven n' d' := by
  rw [← roundHalfEven_mul_right n d hd', h, Nat.mul_comm d d', roundHalfEven_mul_right n' d' hd]

theorem nearestBits_congr (hden : 0 < den) (hden' : 0 < den')
    (hratio : num * den' = num' * den) : nearestBits num den = nearestBits num' den' := by
  have hscale := isScale_log2 num hden
  generalize (num * unitsPerOne / den).log2 - 52 = s at hscale
  rw [hscale.nearestBits_eq hden, (hscale.congr hratio hden hden').nearestBits_eq hden']
  refine congrArg _ (roundHalfEven_congr (Nat.mul_pos hden (twoTo_pos s))
    (Nat.mul_pos hden' (twoTo_pos s)) ?_)
  calc num * unitsPerOne * (den' * twoTo s) = num * den' * (unitsPerOne * twoTo s) := by ring
    _ = num' * den * (unitsPerOne * twoTo s) := by rw [hratio]
    _ = num' * unitsPerOne * (den * twoTo s) := by ring

/-- Quotients of one value have one closest double. -/
theorem closest_congr (negative : Bool) (hden : 0 < den) (hden' : 0 < den')
    (hratio : num * den' = num' * den) :
    closest negative num den = closest negative num' den' := by
  rw [closest_eq, closest_eq, nearestBits_congr hden hden' hratio]

/-! ### The level of the closest double -/

/-- A number negated if `negative`. -/
def signedBy (negative : Bool) (n : Nat) : Int :=
  if negative then -(n : Int) else n

theorem signedBy_true (n : Nat) : signedBy true n = -signedBy false n := rfl

theorem level_finite {x : Float} {negative : Bool} {m s : Nat}
    (h : parts x = .finite negative m s) : level x = signedBy negative (m * twoTo s) := by
  unfold level
  rw [h]
  cases negative with
  | false => rfl
  | true => rfl

theorem level_infinite {x : Float} {negative : Bool} (h : parts x = .infinite negative) :
    level x = signedBy negative gridEnd := by
  unfold level
  rw [h]
  cases negative with
  | false => rfl
  | true => rfl

/-- The bits of a scale and its digits are those of a double, also where rounding has
filled up the last digit. -/
theorem exists_parts_ofNearest {r : Nat} (hr : r ≤ twoTo 53) (hlead : 0 < s → twoTo 52 ≤ r)
    (hlt : s * twoTo 52 + r < infinityBits) :
    ∃ m t, m * twoTo t = r * twoTo s ∧
      ∀ negative, parts (ofNearest negative (s * twoTo 52 + r)) = .finite negative m t := by
  have h52 : twoTo 52 = 4503599627370496 := rfl
  have h53 : twoTo 53 = 9007199254740992 := rfl
  have hlast : infinityBits = 2047 * twoTo 52 := rfl
  have hbits : ∀ negative, ofNearest negative (s * twoTo 52 + r) =
      Float.ofBits (UInt64.ofNat (s * twoTo 52 + r + if negative then twoTo 63 else 0)) :=
    fun negative => if_pos hlt
  rcases Nat.lt_or_ge r (twoTo 53) with hless | hfull
  · refine ⟨r, s, rfl, fun negative => ?_⟩
    rw [hbits]
    refine parts_ofBits hless hlead ?_
    rw [hlast] at hlt
    rw [h52] at hlead hlt
    omega
  · -- digits that are filled up carry into the scale
    obtain rfl : r = twoTo 53 := Nat.le_antisymm hr hfull
    have hcarry : s * twoTo 52 + twoTo 53 = (s + 1) * twoTo 52 + twoTo 52 := by
      rw [h52, h53]
      omega
    refine ⟨twoTo 52, s + 1, ?_, fun negative => ?_⟩
    · rw [twoTo_succ s, twoTo_53]
      ring
    · rw [hbits, hcarry]
      refine parts_ofBits ?_ (fun _ => Nat.le_refl _) ?_
      · rw [h52, h53]
        decide
      · rw [hlast, h52, h53] at hlt
        omega

theorem parts_overflow (negative : Bool) :
    parts (if negative then -1 / 0 else 1 / 0) = .infinite negative := by
  cases negative with
  | false => decide +kernel
  | true => decide +kernel

/-- The closest double has the digits of the quotient at its scale, or it is an
infinity. -/
theorem closest_cases (hden : 0 < den) (h : IsScale num den s) :
    (∃ m t, s ≤ 2045 ∧ m * twoTo t = digitsAt num den s * twoTo s ∧
      ∀ negative, parts (closest negative num den) = .finite negative m t) ∨
    ((if s ≤ 2045 then digitsAt num den s * twoTo s else gridEnd) = gridEnd ∧
      ∀ negative, closest negative num den = if negative then -1 / 0 else 1 / 0) := by
  have hr := h.digits_le hden
  have hlead := h.le_digits hden
  have hbits : ∀ negative, closest negative num den =
      ofNearest negative (s * twoTo 52 + digitsAt num den s) := fun negative => by
    rw [closest_eq, h.nearestBits_eq hden]
  generalize digitsAt num den s = r at hr hlead hbits ⊢
  have h52 : twoTo 52 = 4503599627370496 := rfl
  have h53 : twoTo 53 = 9007199254740992 := rfl
  have hlast : infinityBits = 2047 * twoTo 52 := rfl
  by_cases hlt : s * twoTo 52 + r < infinityBits
  · obtain ⟨m, t, hvalue, hparts⟩ := exists_parts_ofNearest hr hlead hlt
    refine .inl ⟨m, t, ?_, hvalue, fun negative => ?_⟩
    · rw [hlast] at hlt
      rw [h52] at hlead hlt
      omega
    · rw [hbits]
      exact hparts negative
  · refine .inr ⟨?_, fun negative => ?_⟩
    · split
      · next hs =>
        -- the last step, with its digits filled up
        rw [hlast, h52] at hlt
        rw [h53] at hr
        have hstep : s = 2045 := by omega
        have hfull : r = twoTo 53 := by omega
        rw [gridEnd_eq, hfull, hstep]
      · rfl
    · rw [hbits]
      exact if_neg hlt

theorem level_closest (negative : Bool) (hden : 0 < den) (h : IsScale num den s) :
    level (closest negative num den) =
      signedBy negative (if s ≤ 2045 then digitsAt num den s * twoTo s else gridEnd) := by
  rcases closest_cases hden h with ⟨m, t, hs, hvalue, hparts⟩ | ⟨hend, hinfinite⟩
  · rw [if_pos hs, ← hvalue]
    exact level_finite (hparts negative)
  · rw [hend, hinfinite]
    exact level_infinite (parts_overflow negative)

theorem level_closest_neg (hden : 0 < den) :
    level (closest true num den) = -level (closest false num den) := by
  have hscale := isScale_log2 num hden
  rw [level_closest true hden hscale, level_closest false hden hscale, signedBy_true]

end

theorem parts_closest_ne_nan (negative : Bool) (num : Nat) {den : Nat} (hden : 0 < den) :
    parts (closest negative num den) ≠ .nan := by
  rcases closest_cases hden (isScale_log2 num hden) with ⟨m, t, -, -, hparts⟩ | ⟨-, hinfinite⟩
  · rw [hparts]
    nofun
  · rw [hinfinite, parts_overflow]
    nofun

/-! ### The reach of the doubles -/

section

variable (negative : Bool) {num den : Nat}

/-- Below the reach of the doubles the closest one is finite. -/
theorem isFinite_closest (hden : 0 < den) (h : num < reach * den) :
    isFinite (closest negative num den) := by
  have hsome : (ofRatio? negative num den).isSome := (ofRatio?_isSome_iff hden).2 h
  obtain ⟨x, hx⟩ := Option.isSome_iff_exists.1 hsome
  unfold closest
  rw [hx]
  exact isFinite_of_ofRatio? hx

/-- From the reach on it is an infinity. -/
theorem closest_of_reach (hden : 0 < den) (h : reach * den ≤ num) :
    closest negative num den = if negative then -1 / 0 else 1 / 0 := by
  have hbits : ¬ nearestBits num den < infinityBits :=
    fun hlt => Nat.not_lt.2 h ((nearestBits_lt_iff hden).1 hlt)
  rw [closest_eq]
  exact if_neg hbits

end

/-! ### Nearest points -/

/-- No point of the grid is closer to the number than this one. -/
structure Nearest (q : ℚ) (n : Int) : Prop where
  onGrid : OnGrid n
  below : ∀ z, OnGrid z → z < n → (z + n : ℚ) ≤ 2 * q
  above : ∀ z, OnGrid z → n < z → 2 * q ≤ n + z

theorem Nearest.neg {q : ℚ} {n : Int} (h : Nearest q n) : Nearest (-q) (-n) where
  onGrid := h.onGrid.neg
  below z hz hlt := by
    have habove := h.above (-z) hz.neg (by omega)
    push_cast at habove ⊢
    linarith
  above z hz hlt := by
    have hbelow := h.below (-z) hz.neg (by omega)
    push_cast at hbelow ⊢
    linarith

/-- A number is nearest to itself, if it is a point of the grid. -/
theorem Nearest.eq_of_onGrid {q : ℚ} {n z : Int} (h : Nearest q n) (hz : OnGrid z)
    (hq : q = z) : n = z := by
  subst hq
  rcases lt_trichotomy n z with hlt | heq | hlt
  · have habove := h.above z hz hlt
    have hlt' : (n : ℚ) < z := Int.cast_lt.2 hlt
    linarith
  · exact heq
  · have hbelow := h.below z hz hlt
    have hlt' : (z : ℚ) < n := Int.cast_lt.2 hlt
    linarith

/-- A point that is not beyond a number is not beyond its nearest point. -/
theorem Nearest.le_of_le {q : ℚ} {n z : Int} (h : Nearest q n) (hz : OnGrid z) (hle : z ≤ q) :
    z ≤ n := by
  by_contra hlt
  have habove := h.above z hz (not_le.1 hlt)
  have hless : (n : ℚ) < z := Int.cast_lt.2 (not_le.1 hlt)
  linarith

theorem Nearest.nonneg {q : ℚ} {n : Int} (h : Nearest q n) (hq : 0 ≤ q) : 0 ≤ n :=
  h.le_of_le onGrid_zero (by rwa [Int.cast_zero])

/-- A number is beyond a point of the grid exactly if its nearest point is, where this is
another one. -/
theorem Nearest.lt_iff {q : ℚ} {n z : Int} (h : Nearest q n) (hz : OnGrid z) :
    z < n ↔ (z : ℚ) < q ∧ z ≠ n := by
  constructor
  · intro hlt
    have hbelow := h.below z hz hlt
    have hlt' : (z : ℚ) < n := Int.cast_lt.2 hlt
    exact ⟨by linarith, ne_of_lt hlt⟩
  · rintro ⟨hlt, hne⟩
    exact lt_of_le_of_ne (h.le_of_le hz hlt.le) hne

theorem Nearest.gt_iff {q : ℚ} {n z : Int} (h : Nearest q n) (hz : OnGrid z) :
    n < z ↔ q < (z : ℚ) ∧ z ≠ n := by
  have hneg := h.neg.lt_iff hz.neg
  push_cast at hneg
  constructor
  · intro hlt
    obtain ⟨hlt, hne⟩ := hneg.1 (by omega)
    exact ⟨by linarith, by omega⟩
  · rintro ⟨hlt, hne⟩
    have := hneg.2 ⟨by linarith, by omega⟩
    omega

/-- The multiple of the scale that a number is rounded to is nearest to it. -/
theorem nearest_of_rounded {q : ℚ} {r s : Nat} (hr : r ≤ twoTo 53) (hs : s ≤ 2045)
    (hlead : 0 < s → twoTo 52 ≤ r) (hlow : 0 < s → (twoTo 52 * twoTo s : Nat) ≤ q)
    (hdown : 2 * q ≤ 2 * (r * twoTo s : Nat) + twoTo s)
    (hup : (2 * (r * twoTo s : Nat) : ℚ) ≤ 2 * q + twoTo s) :
    Nearest q (r * twoTo s : Nat) := by
  have hgrid := onGrid_mul hr hs
  have hlead' : 0 < s → twoTo 52 * twoTo s ≤ r * twoTo s :=
    fun hpos => Nat.mul_le_mul_right _ (hlead hpos)
  have hdvd : twoTo s ∣ r * twoTo s := Nat.dvd_mul_left _ _
  have hdvd' : twoTo s ∣ twoTo 52 * twoTo s := Nat.dvd_mul_left _ _
  generalize r * twoTo s = n at *
  refine ⟨hgrid, fun z hz hlt => ?_, fun z hz hlt => ?_⟩
  · have hsmaller : z + twoTo s ≤ n → ((z : ℚ) + ((n : Int) : ℚ)) ≤ 2 * q := by
      intro hle
      have hle' : (z + twoTo s : ℚ) ≤ n := by exact_mod_cast hle
      rw [Int.cast_natCast]
      linarith
    rcases hz.dvd_or_le s with hmul | ⟨hpos, hsmall⟩
    · have hgap := Int.le_of_dvd (by omega) (Int.dvd_sub (Int.natCast_dvd_natCast.2 hdvd) hmul)
      exact hsmaller (by omega)
    · rcases le_or_gt (n : ℚ) q with hle | hgt
      · have hlt' : (z : ℚ) < n := by exact_mod_cast hlt
        rw [Int.cast_natCast]
        linarith
      · -- the end of the smaller steps is below `q`, and so it is a step below `n`
        have hcast : ((twoTo 52 * twoTo s : Nat) : ℚ) < n := lt_of_le_of_lt (hlow hpos) hgt
        have hless : twoTo 52 * twoTo s < n := by exact_mod_cast hcast
        have hgap := Nat.le_of_dvd (by omega) (Nat.dvd_sub hdvd hdvd')
        exact hsmaller (by omega)
  · rcases hz.dvd_or_le s with hmul | ⟨hpos, hsmall⟩
    · have hgap := Int.le_of_dvd (by omega) (Int.dvd_sub hmul (Int.natCast_dvd_natCast.2 hdvd))
      have hle : (n + twoTo s : ℚ) ≤ z := by
        have hstep : (n : Int) + twoTo s ≤ z := by omega
        exact_mod_cast hstep
      rw [Int.cast_natCast]
      linarith
    · have hle := hlead' hpos
      omega

/-- Beyond the middle of the last step, the end of the grid is nearest. -/
theorem nearest_of_beyond {q : ℚ} (h : gridEnd ≤ q) : Nearest q gridEnd where
  onGrid := onGrid_gridEnd
  below z hz hlt := by
    have hlt' : (z : ℚ) < gridEnd := by exact_mod_cast hlt
    push_cast
    linarith
  above z hz hlt := absurd hz.le_gridEnd (by omega)

/-- The level of the closest double is nearest to the quotient, in units of the smallest
double. -/
theorem nearest_closest (num : Nat) {den : Nat} (hden : 0 < den) :
    Nearest (num * unitsPerOne / den) (level (closest false num den)) := by
  have hscale := isScale_log2 num hden
  generalize (num * unitsPerOne / den).log2 - 52 = s at hscale
  have hden' : (0 : ℚ) < den := Nat.cast_pos.2 hden
  have hlow : 0 < s → ((twoTo 52 * twoTo s : Nat) : ℚ) ≤ num * unitsPerOne / den := by
    intro hs
    rw [le_div_iff₀ hden']
    have hle : twoTo 52 * twoTo s * den ≤ num * unitsPerOne := by
      calc twoTo 52 * twoTo s * den = twoTo 52 * (den * twoTo s) := by ring
        _ ≤ num * unitsPerOne := hscale.low hs
    exact_mod_cast hle
  rw [level_closest false hden hscale]
  show Nearest _ ((if s ≤ 2045 then digitsAt num den s * twoTo s else gridEnd : Nat) : Int)
  split
  · next hs =>
    have hpos : 0 < den * twoTo s := Nat.mul_pos hden (twoTo_pos s)
    have hup := two_mul_roundHalfEven_le (n := num * unitsPerOne) hpos
    have hdown := le_two_mul_roundHalfEven (n := num * unitsPerOne) hpos
    refine nearest_of_rounded (hscale.digits_le hden) hs (hscale.le_digits hden) hlow ?_ ?_
    · rw [mul_div_assoc', div_le_iff₀ hden']
      have hle : 2 * (num * unitsPerOne) ≤
          (2 * (digitsAt num den s * twoTo s) + twoTo s) * den := by
        calc 2 * (num * unitsPerOne) ≤ _ := hdown
          _ = (2 * (digitsAt num den s * twoTo s) + twoTo s) * den := by unfold digitsAt; ring
      exact_mod_cast hle
    · have hle : 2 * (digitsAt num den s * twoTo s) * den ≤
          2 * (num * unitsPerOne) + twoTo s * den := by
        calc 2 * (digitsAt num den s * twoTo s) * den = _ := by unfold digitsAt; ring
          _ ≤ _ := hup
          _ = 2 * (num * unitsPerOne) + twoTo s * den := by ring
      have hcast : (2 * (digitsAt num den s * twoTo s : Nat) * den : ℚ) ≤
          2 * (num * unitsPerOne) + twoTo s * den := by exact_mod_cast hle
      have hsplit : 2 * ((num : ℚ) * unitsPerOne / den) + twoTo s =
          (2 * (num * unitsPerOne) + twoTo s * den) / den := by
        rw [add_div, mul_div_cancel_right₀ _ hden'.ne', mul_div_assoc']
      rw [hsplit, le_div_iff₀ hden']
      exact hcast
  · next hs =>
    refine nearest_of_beyond (le_trans ?_ (hlow (by omega)))
    have hle : gridEnd ≤ twoTo 52 * twoTo s := by
      calc gridEnd = twoTo 52 * twoTo (2045 + 1) := by
            rw [gridEnd_eq, twoTo_succ 2045, twoTo_53]; ring
        _ ≤ twoTo 52 * twoTo s := Nat.mul_le_mul_left _ (twoTo_le (by omega))
    exact_mod_cast hle

theorem nearest_closest_neg (num : Nat) {den : Nat} (hden : 0 < den) :
    Nearest (-(num * unitsPerOne / den)) (level (closest true num den)) := by
  rw [level_closest_neg hden]
  exact (nearest_closest num hden).neg

end Gridbook.Real
