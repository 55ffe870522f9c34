/-
Gridbook/Proofs/Store/Written.lean

The JSON text of a number is a numeral.  Of a whole number it is its digits, and of a
double the decimal that the double is written by, positionally or with an exponent: in both
forms the digits and the power of ten of the text make up the decimal (`exists_writes`), so
how the digits are cut and padded has no part in what the text is worth.

Main statements: the closest double of the text of a number is the number, if it is a finite
double (`exists_spells_real`), and its closest double, if it is whole
(`exists_spells_whole`).
-/
import Gridbook.Proofs.Real.Shortest
import Gridbook.Proofs.Store.Leading
import Gridbook.Store.Native

namespace Gridbook

/-! ### Digits -/

namespace Text

theorem digitsValue_toDigits (n : Nat) : digitsValue (Nat.toDigits 10 n) = n := by
  -- from the last digit on
  induction n using Nat.strongRecOn with
  | ind n ih =>
    have hdigit : ∀ d, d < 10 → digitValue (Nat.digitChar d) = d := fun d hd => by
      unfold digitValue
      rw [digitValue?_digitChar ⟨d, hd⟩]
      rfl
    rw [Nat.toDigits_eq_if (by decide)]
    split
    · next hless =>
      have hsingle := digitsValue_append_singleton [] (Nat.digitChar n)
      rwa [hdigit n hless, List.nil_append, show digitsValue [] = 0 from rfl, Nat.mul_zero,
        Nat.zero_add] at hsingle
    · next hmore =>
      rw [digitsValue_append_singleton, ih (n / 10) (by omega), hdigit _ (Nat.mod_lt n (by decide))]
      omega

theorem digitsValue_append (as bs : List Char) :
    digitsValue (as ++ bs) = digitsValue as * tenTo bs.length + digitsValue bs := by
  induction bs using List.reverseRecOn with
  | nil =>
    have hone : tenTo 0 = 1 := rfl
    rw [List.append_nil, List.length_nil, hone, Nat.mul_one]
    rfl
  | append_singleton bs c ih =>
    rw [← List.append_assoc, digitsValue_append_singleton, ih, digitsValue_append_singleton,
      List.length_append, List.length_singleton, tenTo_succ]
    ring

theorem digitsValue_zeros (k : Nat) : digitsValue (List.replicate k '0') = 0 := by
  induction k with
  | zero => rfl
  | succ k ih =>
    rw [List.replicate_succ', digitsValue_append_singleton, ih]
    rfl

theorem digitsValue_zeros_append (k : Nat) (ds : List Char) :
    digitsValue (List.replicate k '0' ++ ds) = digitsValue ds := by
  rw [digitsValue_append, digitsValue_zeros, Nat.zero_mul, Nat.zero_add]

end Text

namespace Numeral

open Gridbook.Literal Gridbook.Real

theorem isAscii_of_isDigit {c : Char} (h : c.isDigit) : isAscii c := by
  by_contra hnot
  rw [isDigit_of_not_isAscii (Bool.eq_false_iff.2 hnot)] at h
  cases h

theorem isDigit_ascii {c : Char} (h : c.isDigit) : Text.isDigit c := by
  rwa [← isDigit_of_isAscii (isAscii_of_isDigit h)]

theorem isDigit_toDigits {n : Nat} {c : Char} (h : c ∈ Nat.toDigits 10 n) : c.isDigit :=
  Nat.isDigit_of_mem_toDigits (by decide) (by decide) h

theorem isDigit_zeros {n : Nat} {c : Char} (h : c ∈ List.replicate n '0') : c.isDigit := by
  rw [List.eq_of_mem_replicate h]
  rfl

/-! ### Decimals as they are written -/

/-- A literal with digits of ASCII that is worth `q`. -/
structure Writes (l : Literal) (q : ℚ) : Prop where
  literal : l.WellFormed
  ascii : ∀ c ∈ l.text, isAscii c
  magnitude : magnitude l = q

section

variable {ds whole fraction : List Char} {e : Int} {d : Decimal}

/-- The parts of a literal in ASCII, and what they are worth. -/
theorem writes_of_digits {point : List Char} {exponent : Option Exponent} {q : ℚ}
    (hwhole : ∀ c ∈ whole, c.isDigit) (hnonempty : whole ≠ [])
    (hpoint : point = [] ∧ fraction = [] ∨ point = ['.'])
    (hfraction : ∀ c ∈ fraction, c.isDigit)
    (hexponent : ∀ e, exponent = some e → e.WellFormed ∧ ∀ c ∈ e.text, isAscii c)
    (hvalue : magnitude ⟨whole, point, fraction, exponent⟩ = q) :
    Writes ⟨whole, point, fraction, exponent⟩ q where
  literal :=
    { whole := fun c hc => isDigit_ascii (hwhole c hc)
      point := hpoint
      fraction := fun c hc => isDigit_ascii (hfraction c hc)
      nonempty := List.append_ne_nil_of_left_ne_nil hnonempty _
      exponent := fun e he => (hexponent e he).1 }
  ascii c hc := by
    unfold Literal.text at hc
    simp only [List.mem_append] at hc
    rcases hc with ((hc | hc) | hc) | hc
    · exact isAscii_of_isDigit (hwhole c hc)
    · rcases hpoint with ⟨rfl, -⟩ | rfl
      · cases hc
      · rw [List.mem_singleton.1 hc]
        rfl
    · exact isAscii_of_isDigit (hfraction c hc)
    · cases exponent with
      | none => cases hc
      | some e => exact (hexponent e rfl).2 c hc
  magnitude := hvalue

/-- Digits with the point after the first of them, at the power of ten that they are
scaled by. -/
def placed (ds : List Char) (e : Int) : ℚ :=
  Text.digitsValue ds * 10 ^ (e + 1 - ds.length)

theorem placed_append_zeros (ds : List Char) (k : Nat) (e : Int) :
    placed (ds ++ List.replicate k '0') e = placed ds e := by
  have hpower : (10 : ℚ) ^ (e + 1 - ds.length) =
      10 ^ k * 10 ^ (e + 1 - ((ds.length + k : Nat) : Int)) := by
    rw [← zpow_natCast, ← zpow_add₀ ten_ne_zero]
    congr 1
    omega
  unfold placed
  rw [Text.digitsValue_append, Text.digitsValue_zeros, Nat.add_zero, List.length_append,
    List.length_replicate, hpower, Nat.cast_mul, cast_tenTo, mul_assoc]

theorem placed_zeros_append (ds : List Char) (k : Nat) (e : Int) :
    placed (List.replicate k '0' ++ ds) e = placed ds (e - k) := by
  unfold placed
  rw [Text.digitsValue_zeros_append, List.length_append, List.length_replicate]
  congr 2
  omega

/-- The digits of a number without the zeros that end them. -/
theorem exists_significant (hds : ds ≠ []) :
    Decimal.significant ds ≠ [] ∧ ∃ k, ds = Decimal.significant ds ++ List.replicate k '0' := by
  have hsplit := congrArg List.reverse
    (List.takeWhile_append_dropWhile (p := (· == '0')) (l := ds.reverse))
  rw [List.reverse_append, List.reverse_reverse] at hsplit
  have hzeros : (ds.reverse.takeWhile (· == '0')).reverse =
      List.replicate (ds.reverse.takeWhile (· == '0')).length '0' := by
    refine List.eq_replicate_iff.2 ⟨List.length_reverse, fun c hc => ?_⟩
    have hzero := List.mem_takeWhile_imp (List.mem_reverse.1 hc)
    exact beq_iff_eq.1 hzero
  rw [hzeros] at hsplit
  generalize (ds.reverse.takeWhile (· == '0')).length = k at hsplit
  unfold Decimal.significant
  cases hkept : (ds.reverse.dropWhile (· == '0')).reverse with
  | nil =>
    -- all are zeros, of which one is kept
    rw [hkept, List.nil_append] at hsplit
    cases k with
    | zero => exact absurd hsplit.symm hds
    | succ k => exact ⟨List.cons_ne_nil _ _, k, hsplit.symm⟩
  | cons c cs =>
    rw [hkept] at hsplit
    exact ⟨List.cons_ne_nil _ _, k, hsplit.symm⟩

/-- What a literal is worth by all its digits and the place of its point. -/
theorem magnitude_eq_placed (l : Literal) :
    magnitude l = placed (l.whole ++ l.fraction)
      ((l.exponent.map Exponent.value).getD 0 + l.whole.length - 1) := by
  unfold magnitude placed Literal.scale
  rw [List.length_append]
  congr 2
  omega

/-- The digits that are cut at the point, padded on both sides of it. -/
theorem exists_padded (ds : List Char) (n : Nat) :
    ∃ k, ds.take n ++ List.replicate (n - ds.length) '0' ++ Decimal.fractionOf (ds.drop n) =
      ds ++ List.replicate k '0' := by
  unfold Decimal.fractionOf
  split
  · next hdrop =>
    have hlength : ds.length ≤ n := List.drop_eq_nil_iff.1 hdrop
    refine ⟨n - ds.length + 1, ?_⟩
    rw [List.take_of_length_le hlength, List.append_assoc, ← List.replicate_succ']
  · next hdrop =>
    have hlength : n < ds.length := Nat.not_le.1 fun hle => hdrop (List.drop_eq_nil_iff.2 hle)
    refine ⟨0, ?_⟩
    rw [Nat.sub_eq_zero_of_le hlength.le, List.replicate_zero, List.append_nil, List.append_nil,
      List.take_append_drop]

theorem isDigit_fractionOf (hds : ∀ c ∈ ds, c.isDigit) :
    ∀ c ∈ Decimal.fractionOf ds, c.isDigit := by
  unfold Decimal.fractionOf
  split
  · exact fun c hc => isDigit_zeros (n := 1) hc
  · exact hds

theorem writes_positional (hds : ∀ c ∈ ds, c.isDigit) (e : Int) :
    ∃ l, Writes l (placed ds e) ∧ l.text = Decimal.positional ds e ∧ l.exponent = none := by
  unfold Decimal.positional
  split
  · next hneg =>
    refine ⟨⟨['0'], ['.'], List.replicate (-e - 1).toNat '0' ++ ds, none⟩,
      writes_of_digits (fun c hc => isDigit_zeros (n := 1) hc) (List.cons_ne_nil _ _) (.inr rfl)
        ?_ nofun ?_, ?_, rfl⟩
    · intro c hc
      exact (List.mem_append.1 hc).elim isDigit_zeros (hds c)
    · rw [magnitude_eq_placed]
      have hzeros := placed_zeros_append ds ((-e - 1).toNat + 1) 0
      rw [List.replicate_succ, show (0 : Int) - ((-e - 1).toNat + 1 : Nat) = e by omega] at hzeros
      exact hzeros
    · exact List.append_nil _
  · next hnonneg =>
    dsimp only
    generalize hn : e.toNat + 1 = n
    refine ⟨⟨ds.take n ++ List.replicate (n - ds.length) '0', ['.'],
      Decimal.fractionOf (ds.drop n), none⟩, writes_of_digits ?_ ?_ (.inr rfl)
        (isDigit_fractionOf fun c hc => hds c (List.mem_of_mem_drop hc)) nofun ?_, ?_, rfl⟩
    · intro c hc
      exact (List.mem_append.1 hc).elim (fun hc => hds c (List.mem_of_mem_take hc)) isDigit_zeros
    · refine List.ne_nil_of_length_pos ?_
      rw [List.length_append, List.length_take, List.length_replicate]
      omega
    · obtain ⟨k, hk⟩ := exists_padded ds n
      rw [magnitude_eq_placed]
      dsimp only
      rw [hk, placed_append_zeros, List.length_append, List.length_take, List.length_replicate]
      congr 1
      simp only [Option.map_none, Option.getD_none]
      omega
    · simp [Literal.text]

/-- The exponent as it is written. -/
theorem exists_exponent (e : Int) :
    ∃ x : Exponent, x.WellFormed ∧ (∀ c ∈ x.text, isAscii c) ∧
      x.text = 'e' :: Decimal.exponentText e ∧ x.value = e ∧
      Text.digitsValue x.digits = e.natAbs := by
  have hdigits : ∀ c ∈ List.replicate (2 - (Nat.toDigits 10 e.natAbs).length) '0' ++
      Nat.toDigits 10 e.natAbs, c.isDigit :=
    fun c hc => (List.mem_append.1 hc).elim isDigit_zeros isDigit_toDigits
  have hvalue := Text.digitsValue_zeros_append (2 - (Nat.toDigits 10 e.natAbs).length)
    (Nat.toDigits 10 e.natAbs)
  rw [Text.digitsValue_toDigits] at hvalue
  have hnonempty : List.replicate (2 - (Nat.toDigits 10 e.natAbs).length) '0' ++
      Nat.toDigits 10 e.natAbs ≠ [] :=
    List.append_ne_nil_of_right_ne_nil _ Nat.toDigits_ne_nil
  unfold Decimal.exponentText
  dsimp only
  generalize List.replicate (2 - (Nat.toDigits 10 e.natAbs).length) '0' ++
    Nat.toDigits 10 e.natAbs = ds at hdigits hvalue hnonempty ⊢
  refine ⟨⟨'e', [if e < 0 then '-' else '+'], ds⟩, ⟨.inl rfl, ?_,
    fun c hc => isDigit_ascii (hdigits c hc), hnonempty⟩, ?_, rfl, ?_, hvalue⟩
  · by_cases hneg : e < 0
    · rw [if_pos hneg]
      exact .inr (.inr rfl)
    · rw [if_neg hneg]
      exact .inr (.inl rfl)
  · intro c hc
    rcases List.mem_cons.1 hc with rfl | hc
    · rfl
    rcases List.mem_cons.1 hc with rfl | hc
    · split
      · rfl
      · rfl
    · exact isAscii_of_isDigit (hdigits c hc)
  · show (if [if e < 0 then '-' else '+'] = ['-'] then -((Text.digitsValue ds : Nat) : Int)
      else (Text.digitsValue ds : Nat)) = e
    by_cases hneg : e < 0
    · rw [if_pos hneg, if_pos rfl, hvalue]
      omega
    · rw [if_neg hneg, if_neg (by decide), hvalue]
      omega

theorem writes_scientific (fraction : Bool) (hds : ∀ c ∈ ds, c.isDigit) (hne : ds ≠ []) (e : Int) :
    ∃ l, Writes l (placed ds e) ∧ l.text = Decimal.scientific fraction ds e ∧
      ∀ x, l.exponent = some x → Text.digitsValue x.digits = e.natAbs := by
  obtain ⟨x, hx, hascii, htext, hvalue, hdigits⟩ := exists_exponent e
  obtain ⟨c, cs, rfl⟩ := List.exists_cons_of_ne_nil hne
  have hexponent : ∀ y, some x = some y → y.WellFormed ∧ ∀ c ∈ y.text, isAscii c := by
    rintro y ⟨⟩
    exact ⟨hx, hascii⟩
  have hfirst : ∀ d ∈ [c], d.isDigit := fun d hd => hds d (List.mem_of_mem_take (i := 1) hd)
  -- a literal of these parts is worth the digits at the exponent
  have hparts : ∀ point rest k, cs ++ List.replicate k '0' = rest →
      (point = [] ∧ rest = [] ∨ point = ['.']) →
      Writes ⟨[c], point, rest, some x⟩ (placed (c :: cs) e) := by
    rintro point rest k rfl hpoint
    refine writes_of_digits hfirst (List.cons_ne_nil _ _) hpoint ?_ hexponent ?_
    · intro d hd
      exact (List.mem_append.1 hd).elim (fun hd => hds d (List.mem_cons_of_mem c hd)) isDigit_zeros
    · rw [magnitude_eq_placed]
      show placed (c :: cs ++ List.replicate k '0') (x.value + 1 - 1) = _
      rw [placed_append_zeros, hvalue, add_sub_cancel_right]
  have hfew : ∀ y, some x = some y → Text.digitsValue y.digits = e.natAbs := by
    rintro y ⟨⟩
    exact hdigits
  unfold Decimal.scientific
  rw [← htext]
  cases cs with
  | nil =>
    cases fraction with
    | true =>
      exact ⟨_, hparts ['.'] ['0'] 1 rfl (.inr rfl), rfl, hfew⟩
    | false =>
      exact ⟨_, hparts [] [] 0 rfl (.inl ⟨rfl, rfl⟩), rfl, hfew⟩
  | cons d cs =>
    refine ⟨_, hparts ['.'] (d :: cs) 0 (List.append_nil _) (.inr rfl), ?_, hfew⟩
    simp [Literal.text]

end

/-! ### The text of a decimal -/

/-- A decimal is written by a literal that is worth it.  The exponent, where there is one, is
the power of ten of the first digit. -/
theorem exists_writes (layout : Decimal.Layout) (d : Decimal) :
    ∃ l, Writes l (d.digits * 10 ^ d.exponent) ∧ l.text = d.render layout ∧
      ∀ x, l.exponent = some x → Text.digitsValue x.digits =
        if d.digits = 0 then 0
        else ((Nat.toDigits 10 d.digits).length - 1 + d.exponent).natAbs := by
  obtain ⟨hne, k, hk⟩ := exists_significant (@Nat.toDigits_ne_nil d.digits 10)
  have hds : ∀ c ∈ Decimal.significant (Nat.toDigits 10 d.digits), c.isDigit := fun c hc => by
    refine isDigit_toDigits (n := d.digits) ?_
    rw [hk]
    exact List.mem_append_left _ hc
  have hvalue : ∀ e : Int, e = (if d.digits = 0 then 0
      else ((Nat.toDigits 10 d.digits).length : Int) - 1 + d.exponent) →
      placed (Decimal.significant (Nat.toDigits 10 d.digits)) e = d.digits * 10 ^ d.exponent := by
    intro e he
    rw [← placed_append_zeros _ k, ← hk]
    unfold placed
    rw [Text.digitsValue_toDigits]
    by_cases hzero : d.digits = 0
    · rw [hzero, Nat.cast_zero, zero_mul, zero_mul]
    · rw [if_neg hzero] at he
      congr 2
      omega
  unfold Decimal.render
  dsimp only
  generalize he : (if d.digits = 0 then 0
      else ((Nat.toDigits 10 d.digits).length : Int) - 1 + d.exponent) = e
  have hworth := hvalue e he.symm
  generalize Decimal.significant (Nat.toDigits 10 d.digits) = ds at hne hds hworth ⊢
  rw [← hworth]
  split
  · obtain ⟨l, hl, htext, hnone⟩ := writes_positional hds e
    refine ⟨l, hl, htext, fun x hx => ?_⟩
    rw [hnone] at hx
    cases hx
  · obtain ⟨l, hl, htext, hdigits⟩ := writes_scientific layout.fraction hds hne e
    refine ⟨l, hl, htext, fun x hx => ?_⟩
    rw [hdigits x hx, ← he]
    split
    · rfl
    · rfl

/-! ### The text of a number -/

/-- The JSON text of the number is the numeral. -/
structure Spells (n : Number) (sign : List Char) (l : Literal) : Prop where
  numeral : IsNumeral sign l
  text : Json.numberToken n = sign ++ l.text

section

variable {n : Number} {sign : List Char} {l : Literal}

/-- The store reads the numeral and nothing else. -/
theorem Spells.leading_eq (h : Spells n sign l) :
    leading (Json.numberToken n) = value (decide (sign = ['-'])) l := by
  have hblank : ∀ c ∈ ([] : List Char), Text.isAsciiBlank c := nofun
  have hdrop := dropWhile_append_signed hblank h.numeral.sign h.numeral.literal []
  rw [List.nil_append, List.append_nil] at hdrop
  refine leading_of_isLongest ?_
  rw [h.text, hdrop]
  refine ⟨h.numeral, List.prefix_refl _, fun sign' l' _ hbegins => hbegins.length_le⟩

/-- Of a literal that is worth a decimal, the closest double is that of the decimal. -/
theorem Writes.signed_eq {digits : Nat} {e : Int} (h : Writes l (digits * 10 ^ e))
    (sign : List Char) : Literal.signed sign l =
      closest (decide (sign = ['-'])) (digits * tenTo e.toNat) (tenTo (-e).toNat) := by
  rw [signed_eq_closest]
  refine closest_congr _ (tenTo_pos _) (tenTo_pos _) ?_
  have hten : ∀ i : Nat, ((tenTo i : Nat) : ℚ) ≠ 0 := fun i => Nat.cast_ne_zero.2 (tenTo_pos i).ne'
  have hsame := h.magnitude
  unfold Numeral.magnitude at hsame
  rw [← tenTo_div_tenTo, ← tenTo_div_tenTo, div_eq_div_iff (hten _) (hten _)] at hsame
  exact_mod_cast hsame

/-- A number that is written as a sign and a decimal has the text of the decimal's double. -/
theorem Writes.exists_spells {digits : Nat} {e : Int} (h : Writes l (digits * 10 ^ e))
    (negative : Bool) (htext : Json.numberToken n = if negative then '-' :: l.text else l.text) :
    ∃ sign, Spells n sign l ∧ Literal.signed sign l =
      closest negative (digits * tenTo e.toNat) (tenTo (-e).toNat) := by
  cases negative with
  | true => exact ⟨['-'], ⟨⟨.inr (.inr rfl), h.literal, h.ascii⟩, htext⟩, h.signed_eq ['-']⟩
  | false => exact ⟨[], ⟨⟨.inl rfl, h.literal, h.ascii⟩, htext⟩, h.signed_eq []⟩

end

theorem writes_toDigits (n : Nat) :
    Writes ⟨Nat.toDigits 10 n, [], [], none⟩ (n * 10 ^ (0 : Int)) := by
  refine writes_of_digits (fun c hc => isDigit_toDigits hc) Nat.toDigits_ne_nil
    (.inl ⟨rfl, rfl⟩) (fun c hc => by cases hc) (fun e he => by cases he) ?_
  show (Text.digitsValue (Nat.toDigits 10 n ++ []) : ℚ) * 10 ^ (0 - 0 : Int) = _
  rw [List.append_nil, Text.digitsValue_toDigits, sub_zero]

/-- The text of a whole number is a numeral with the closest double of the number. -/
theorem exists_spells_whole (n : Int) :
    ∃ sign l, Spells (.whole n) sign l ∧
      Literal.signed sign l = Native.realOf n ∧ IsOrdinary l := by
  have hwrites := writes_toDigits n.natAbs
  have htext : Json.numberToken (.whole n) = if decide (n < 0)
      then '-' :: (Literal.mk (Nat.toDigits 10 n.natAbs) [] [] none).text
      else (Literal.mk (Nat.toDigits 10 n.natAbs) [] [] none).text := by
    show wholeText n = _
    simp [wholeText, Literal.text]
  obtain ⟨sign, hspells, hsigned⟩ := hwrites.exists_spells (decide (n < 0)) htext
  refine ⟨sign, _, hspells, hsigned.trans ?_, ?_, ?_⟩
  · have hone : tenTo 0 = 1 := rfl
    show closest _ (n.natAbs * tenTo 0) (tenTo 0) = closest _ n.natAbs 1
    rw [hone, Nat.mul_one]
  · intro e he
    cases he
  · rw [hwrites.magnitude, zpow_zero, mul_one]
    rcases Nat.eq_zero_or_pos n.natAbs with hzero | hpos
    · left
      rw [hzero, Nat.cast_zero]
    · right
      have hcast : (1 : ℚ) ≤ n.natAbs := by exact_mod_cast hpos
      exact hcast.trans (le_mul_of_one_le_right (by linarith) (one_le_pow₀ (by norm_num)))

section

variable {x : Float} {negative : Bool} {m s : Nat}

/-- What a double is written by has no more places before or behind the point than the
doubles have bits. -/
theorem shortest_bounds (hpos : 0 < m) (hm : m < twoTo 53) (hs : s ≤ 2045) :
    (10 : ℚ) ^ (-1076 : Int) ≤ (shortest m s).digits * 10 ^ (shortest m s).exponent ∧
      ((shortest m s).digits * 10 ^ (shortest m s).exponent : ℚ) ≤ 10 ^ (2101 : Int) := by
  obtain ⟨hlow, hhigh, -⟩ := Rounding.admits_iff.1 (admits_shortest (s := s) hpos hm)
  rw [← tenTo_div_tenTo]
  generalize (shortest m s).digits * tenTo (shortest m s).exponent.toNat = num at hlow hhigh ⊢
  generalize hscale : tenTo (-(shortest m s).exponent).toNat = scale at hlow hhigh ⊢
  have hscale : 0 < scale := hscale ▸ tenTo_pos _
  have hcast : (0 : ℚ) < scale := Nat.cast_pos.2 hscale
  have hden : (Rounding.ofParts m s).den = twoTo (1074 + 1 + 1) := by
    have hquarters : (Rounding.ofParts m s).den = 4 * unitsPerOne := rfl
    rw [hquarters, twoTo_succ, twoTo_succ, unitsPerOne]
    omega
  have hone : 1 ≤ (Rounding.ofParts m s).low := by
    refine Nat.mul_pos ?_ (twoTo_pos s)
    split <;> omega
  have hend : (Rounding.ofParts m s).high ≤ twoTo 2101 := by
    have h53 : twoTo 53 = 9007199254740992 := rfl
    have h56 : twoTo 56 = 72057594037927936 := rfl
    calc (4 * m + 2) * twoTo s ≤ twoTo 56 * twoTo 2045 :=
          Nat.mul_le_mul (by omega) (twoTo_le hs)
      _ = twoTo 2101 := (twoTo_add 56 2045).symm
  rw [hden] at hlow hhigh
  constructor
  · have hle : scale ≤ num * tenTo 1076 := by
      calc scale ≤ (Rounding.ofParts m s).low * scale := Nat.le_mul_of_pos_left _ hone
        _ ≤ num * twoTo 1076 := hlow
        _ ≤ num * tenTo 1076 := Nat.mul_le_mul_left _ (twoTo_le_tenTo _)
    rw [zpow_neg, le_div_iff₀ hcast, inv_mul_le_iff₀ (by positivity), mul_comm, zpow_ofNat,
      ← cast_tenTo]
    exact_mod_cast hle
  · have hle : num ≤ tenTo 2101 * scale := by
      calc num ≤ num * twoTo 1076 := Nat.le_mul_of_pos_right _ (twoTo_pos _)
        _ ≤ (Rounding.ofParts m s).high * scale := hhigh
        _ ≤ tenTo 2101 * scale :=
            Nat.mul_le_mul_right _ (hend.trans (twoTo_le_tenTo _))
    rw [div_le_iff₀ hcast, zpow_ofNat, ← cast_tenTo]
    exact_mod_cast hle

/-- The exponent that a double is written with has four digits at most. -/
theorem exponent_lt (hpos : 0 < m) (hm : m < twoTo 53) (hs : s ≤ 2045)
    (hdigits : (shortest m s).digits ≠ 0) :
    ((Nat.toDigits 10 (shortest m s).digits).length - 1 + (shortest m s).exponent).natAbs <
      largestExponent := by
  obtain ⟨hlow, hhigh⟩ := shortest_bounds hpos hm hs
  obtain ⟨k, hk, hpower⟩ := exists_length_toDigits (Nat.pos_of_ne_zero hdigits)
  have hless := (Nat.length_toDigits_le_iff (b := 10) (by decide) (Nat.succ_pos k)).1 hk.le
  rw [hk]
  generalize (shortest m s).digits = n at hlow hhigh hpower hless
  generalize (shortest m s).exponent = e at hlow hhigh ⊢
  have hten : (0 : ℚ) < 10 ^ e := zpow_pos (by norm_num) e
  have hbelow : (10 : ℚ) ^ ((k : Int) + e) ≤ 10 ^ (2101 : Int) := by
    rw [zpow_add₀ ten_ne_zero, zpow_natCast]
    refine le_trans (mul_le_mul_of_nonneg_right ?_ hten.le) hhigh
    exact_mod_cast hpower
  have habove : (10 : ℚ) ^ (-1076 : Int) < 10 ^ (((k + 1 : Nat) : Int) + e) := by
    rw [zpow_add₀ ten_ne_zero, zpow_natCast]
    refine hlow.trans_lt (mul_lt_mul_of_pos_right ?_ hten)
    exact_mod_cast hless
  have hbelow := (zpow_le_zpow_iff_right₀ (by norm_num)).1 hbelow
  have habove := (zpow_lt_zpow_iff_right₀ (by norm_num)).1 habove
  unfold largestExponent
  omega

/-- The text of a finite double is a numeral with the double for its closest one. -/
theorem exists_spells_real (hx : isFinite x) :
    ∃ sign l, Spells (.real x) sign l ∧ level (Literal.signed sign l) = level x ∧
      ∀ e, l.exponent = some e → Text.digitsValue e.digits < largestExponent := by
  unfold isFinite at hx
  split at hx
  · next negative m s hparts =>
    obtain ⟨hm, hs⟩ := parts_bounds hparts
    obtain ⟨l, hl, htext, hexponent⟩ := exists_writes shortLayout (shortest m s)
    have hsigned : Json.numberToken (.real x) = if negative then '-' :: l.text else l.text := by
      show textWith _ _ _ x = _
      unfold textWith
      rw [hparts, htext]
    obtain ⟨sign, hspells, hclosest⟩ := hl.exists_spells negative hsigned
    refine ⟨sign, l, hspells, ?_, fun e he => ?_⟩
    · rw [hclosest]
      exact level_closest_shortest hparts
    · rw [hexponent e he]
      split
      · decide
      · next hdigits =>
        rcases Nat.eq_zero_or_pos m with rfl | hpos
        · exact absurd rfl hdigits
        · exact exponent_lt hpos hm hs hdigits
  · cases hx

end

end Numeral

end Gridbook
