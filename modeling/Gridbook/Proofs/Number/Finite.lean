/-
Gridbook/Proofs/Number/Finite.lean

Which cells are read as finite numbers.  Both readings of a cell test a number for
being finite, and on the way a whole number is converted to a double, which fails if
it has none.  A plain number in a text is not tested: its double is finite if its
value is within the reach of the doubles (`Literal.WithinReach`), and an infinity if
not.  Every other cell is read as a finite number, or as none.

Main statements: `readings_finite_iff`, both readings have a finite result exactly on
the cells that hold no such number, and what they have on those that do; and
`large_numbers_escape`, four of these.
-/
import Gridbook.Proofs.Formula.Numerals
import Gridbook.Proofs.Formula.Settling
import Gridbook.Proofs.Real.Decimal

namespace Gridbook

namespace Literal

/-! ### Literals -/

/-- The value of the literal is below the reach of the doubles. -/
def WithinReach (l : Literal) : Prop :=
  Text.digitsValue (l.whole ++ l.fraction) * tenTo l.scale.toNat <
    Real.reach * tenTo (-l.scale).toNat

/-- A literal within reach has a finite double. -/
theorem isFinite_signed {l : Literal} (h : l.WithinReach) (sign : List Char) :
    Real.isFinite (signed sign l) := by
  rw [signed_eq_closest]
  exact Real.isFinite_closest _ (tenTo_pos _) h

/-- Any other literal has an infinity. -/
theorem parts_signed {l : Literal} (h : ¬ l.WithinReach) (sign : List Char) :
    Real.parts (signed sign l) = .infinite (sign = ['-']) := by
  rw [signed_eq_closest, Real.closest_of_reach _ (tenTo_pos _) (Nat.not_lt.1 h)]
  exact Real.parts_overflow _

/-- The text is a plain number beyond the reach of the doubles. -/
def Beyond (negative : Bool) (cs : List Char) : Prop :=
  ∃ (sign : List Char) (l : Literal), IsSign sign ∧ l.WellFormed ∧ ¬ l.WithinReach ∧
    cs = sign ++ l.text ∧ negative = decide (sign = ['-'])

theorem infinite_of_beyond {negative : Bool} {cs : List Char} (h : Beyond negative cs) :
    ∃ x, plainReal? cs = some x ∧ Real.parts x = .infinite negative := by
  obtain ⟨sign, l, hsign, hl, hreach, hcs, rfl⟩ := h
  exact ⟨_, plainReal?_eq_some_iff.2 ⟨sign, l, hsign, hl, hcs, rfl⟩, parts_signed hreach sign⟩

/-- The plain number of a text is finite, unless it is beyond reach. -/
theorem isFinite_iff_not_beyond {cs : List Char} {x : Float} (h : plainReal? cs = some x) :
    Real.isFinite x ↔ ¬ ∃ negative, Beyond negative cs := by
  constructor
  · rintro hfinite ⟨negative, hbeyond⟩
    obtain ⟨y, hy, hparts⟩ := infinite_of_beyond hbeyond
    cases h.symm.trans hy
    unfold Real.isFinite at hfinite
    rw [hparts] at hfinite
    cases hfinite
  · intro hnot
    obtain ⟨sign, l, hsign, hl, hcs, rfl⟩ := plainReal?_eq_some_iff.1 h
    refine isFinite_signed ?_ sign
    by_contra hreach
    exact hnot ⟨decide (sign = ['-']), sign, l, hsign, hl, hreach, hcs, rfl⟩

theorem not_beyond_of_none {cs : List Char} (h : plainReal? cs = none) :
    ¬ ∃ negative, Beyond negative cs := by
  rintro ⟨negative, hbeyond⟩
  obtain ⟨x, hx, -⟩ := infinite_of_beyond hbeyond
  cases h.symm.trans hx

end Literal

/-! ### Cells -/

/-- The number has a double, and it is finite. -/
def Number.IsFinite (n : Number) : Prop :=
  ∃ x, n.toReal? = some x ∧ Real.isFinite x

namespace Cell

/-- The cell is a whole number that has no double, or a text that is cleaned to a
plain number beyond the reach of the doubles. -/
def Overlarge (clean : List Char → List Char) : Cell → Prop
  | number (.whole n) => Real.reach ≤ n.natAbs
  | text s => ∃ negative, Literal.Beyond negative (clean s.toList)
  | typed (.string s) => ∃ negative, Literal.Beyond negative (clean s.toList)
  | _ => False

/-- What the lenient reading leaves of a text. -/
def unformatted (cs : List Char) : List Char :=
  cs.filter fun c => !isNumberFormatting c

theorem isFinite_whole {n : Int} (h : n.natAbs < Real.reach) : (Number.whole n).IsFinite := by
  obtain ⟨x, hx⟩ := Real.exists_ofInt?_iff.2 h
  exact ⟨x, hx, Real.isFinite_of_ofRatio? hx⟩

/-- A word is far within the reach of the doubles. -/
theorem isFinite_word (w : Int64) : (Number.word w).IsFinite := by
  refine isFinite_whole (n := w.toInt) ?_
  have hlow := w.le_toInt
  have hhigh := w.toInt_lt
  have hreach : 2 ^ 63 < Real.reach := by decide +kernel
  omega

/-- A result of the strict reading that is none or a finite number. -/
def Settled (r : Except Fault (Option Number)) : Prop :=
  ∃ n?, r = .ok n? ∧ ∀ n, n? = some n → n.IsFinite

theorem settled_none : Settled (.ok none) :=
  ⟨none, rfl, nofun⟩

theorem settled_finiteNumber? (x : Float) : Settled (.ok (finiteNumber? x)) := by
  unfold finiteNumber?
  split
  · next hx =>
    refine ⟨_, rfl, ?_⟩
    rintro _ ⟨⟩
    exact ⟨x, rfl, hx⟩
  · exact settled_none

theorem settled_text_iff (cs : List Char) :
    Settled (.ok ((Literal.plainReal? cs).map .real)) ↔
      ¬ ∃ negative, Literal.Beyond negative cs := by
  cases hx : Literal.plainReal? cs with
  | none => exact ⟨fun _ => Literal.not_beyond_of_none hx, fun _ => settled_none⟩
  | some x =>
    rw [← Literal.isFinite_iff_not_beyond hx]
    constructor
    · rintro ⟨_, ⟨⟩, hfinite⟩
      obtain ⟨y, hy, hfinite⟩ := hfinite _ rfl
      cases hy
      exact hfinite
    · intro hfinite
      refine ⟨_, rfl, ?_⟩
      rintro _ ⟨⟩
      exact ⟨x, rfl, hfinite⟩

theorem settled_strictNumber_iff (c : Cell) :
    Settled c.strictNumber ↔ ¬ c.Overlarge Text.trim := by
  cases c with
  | number n =>
    cases n with
    | whole n =>
      rcases Nat.lt_or_ge n.natAbs Real.reach with hlt | hge
      · rw [strictNumber_whole hlt]
        refine ⟨fun _ => Nat.not_le.2 hlt, fun _ => ⟨_, rfl, ?_⟩⟩
        rintro _ ⟨⟩
        exact isFinite_whole hlt
      · rw [strictNumber_of_reach hge]
        exact ⟨nofun, fun h => absurd hge h⟩
    | word w =>
      refine ⟨fun _ => id, fun _ => ⟨_, rfl, ?_⟩⟩
      rintro _ ⟨⟩
      exact isFinite_word w
    | real x => exact ⟨fun _ => id, fun _ => settled_finiteNumber? x⟩
  | text s => exact settled_text_iff (Text.trim s.toList)
  | typed t =>
    cases t with
    | double x => exact ⟨fun _ => id, fun _ => settled_finiteNumber? x⟩
    | string s => exact settled_text_iff (Text.trim s.toList)
    | _ => exact ⟨fun _ => id, fun _ => settled_none⟩
  | _ => exact ⟨fun _ => id, fun _ => settled_none⟩

theorem lenientNumber_of_reach {n : Int} (h : Real.reach ≤ n.natAbs) :
    (number (.whole n)).lenientNumber = .error .overflow := by
  have hnone : (Number.whole n).toReal? = none := Real.ofInt?_eq_none_iff.2 h
  rw [lenientNumber, realOfNumber, hnone]
  rfl

theorem isFinite_zero : Real.isFinite 0 := by
  decide +kernel

/-- A double that is tested leaves a finite one. -/
theorem isFinite_orZero (x : Float) : Real.isFinite (if Real.isFinite x then x else 0) := by
  split
  · next hx => exact hx
  · exact isFinite_zero

theorem finite_lenientText_iff (s : String) :
    Real.isFinite (lenientText s) ↔
      ¬ ∃ negative, Literal.Beyond negative (unformatted s.toList) := by
  show Real.isFinite ((Literal.plainReal? (unformatted s.toList)).getD 0) ↔ _
  cases hx : Literal.plainReal? (unformatted s.toList) with
  | none => exact ⟨fun _ => Literal.not_beyond_of_none hx, fun _ => isFinite_zero⟩
  | some x => exact Literal.isFinite_iff_not_beyond hx

theorem finite_lenientNumber_iff (c : Cell) :
    (∃ x, c.lenientNumber = .ok x ∧ Real.isFinite x) ↔ ¬ c.Overlarge unformatted := by
  have hnumber : ∀ n : Number, n.IsFinite → ∃ x, (number n).lenientNumber = .ok x ∧
      Real.isFinite x := by
    rintro n ⟨x, hx, -⟩
    exact ⟨_, lenientNumber_of_toReal? hx, isFinite_orZero x⟩
  have htext : ∀ s, (∃ x, (Except.ok (lenientText s) : Except Fault Float) = .ok x ∧
      Real.isFinite x) ↔ ¬ ∃ negative, Literal.Beyond negative (unformatted s.toList) := by
    intro s
    rw [← finite_lenientText_iff]
    constructor
    · rintro ⟨_, ⟨⟩, hfinite⟩
      exact hfinite
    · exact fun hfinite => ⟨_, rfl, hfinite⟩
  cases c with
  | number n =>
    cases n with
    | whole n =>
      rcases Nat.lt_or_ge n.natAbs Real.reach with hlt | hge
      · exact ⟨fun _ => Nat.not_le.2 hlt, fun _ => hnumber _ (isFinite_whole hlt)⟩
      · rw [lenientNumber_of_reach hge]
        exact ⟨nofun, fun h => absurd hge h⟩
    | word w => exact ⟨fun _ => id, fun _ => hnumber _ (isFinite_word w)⟩
    | real x => exact ⟨fun _ => id, fun _ => ⟨_, lenientNumber_of_toReal? rfl, isFinite_orZero x⟩⟩
  | text s => exact htext s
  | bool b =>
    refine ⟨fun _ => id, fun _ => ⟨_, rfl, ?_⟩⟩
    cases b with
    | true => decide +kernel
    | false => exact isFinite_zero
  | typed t =>
    cases t with
    | double x => exact ⟨fun _ => id, fun _ => ⟨_, rfl, isFinite_orZero x⟩⟩
    | string s => exact htext s
    | _ => exact ⟨fun _ => id, fun _ => ⟨0, rfl, isFinite_zero⟩⟩
  | _ => exact ⟨fun _ => id, fun _ => ⟨0, rfl, isFinite_zero⟩⟩

/-- A text that is cleaned to a number beyond reach is read as an infinity. -/
theorem strictNumber_of_beyond {s : String} {negative : Bool}
    (h : Literal.Beyond negative (Text.trim s.toList)) :
    ∃ x, (text s).strictNumber = .ok (some (.real x)) ∧ Real.parts x = .infinite negative := by
  obtain ⟨x, hx, hparts⟩ := Literal.infinite_of_beyond h
  exact ⟨x, strictNumber_text.2 ⟨x, hx, rfl⟩, hparts⟩

theorem lenientNumber_of_beyond {s : String} {negative : Bool}
    (h : Literal.Beyond negative (unformatted s.toList)) :
    ∃ x, (text s).lenientNumber = .ok x ∧ Real.parts x = .infinite negative := by
  obtain ⟨x, hx, hparts⟩ := Literal.infinite_of_beyond h
  refine ⟨x, congrArg Except.ok ?_, hparts⟩
  show (Literal.plainReal? (unformatted s.toList)).getD 0 = x
  rw [hx]
  rfl

/-- The strict reading of a cell is none or a finite number, and the lenient one a
finite double, unless the cell holds a number beyond the reach of the doubles.  Such
a whole number cannot be read, and such a text is read as an infinity. -/
theorem readings_finite_iff (c : Cell) :
    (Settled c.strictNumber ↔ ¬ c.Overlarge Text.trim) ∧
    ((∃ x, c.lenientNumber = .ok x ∧ Real.isFinite x) ↔ ¬ c.Overlarge unformatted) ∧
    (∀ n : Int, c = number (.whole n) → Real.reach ≤ n.natAbs →
      c.strictNumber = .error .overflow ∧ c.lenientNumber = .error .overflow) ∧
    (∀ s negative, c = text s → Literal.Beyond negative (Text.trim s.toList) →
      ∃ x, c.strictNumber = .ok (some (.real x)) ∧ Real.parts x = .infinite negative) ∧
    ∀ s negative, c = text s → Literal.Beyond negative (unformatted s.toList) →
      ∃ x, c.lenientNumber = .ok x ∧ Real.parts x = .infinite negative := by
  refine ⟨settled_strictNumber_iff c, finite_lenientNumber_iff c, ?_, ?_, ?_⟩
  · rintro n rfl hn
    exact ⟨strictNumber_of_reach hn, lenientNumber_of_reach hn⟩
  · rintro s negative rfl hbeyond
    exact strictNumber_of_beyond hbeyond
  · rintro s negative rfl hbeyond
    exact lenientNumber_of_beyond hbeyond

/-- A digit with an exponent, as in `1e400`. -/
def powerLiteral (digit : Char) (exponent : List Char) : Literal :=
  ⟨[digit], [], [], some ⟨'e', [], exponent⟩⟩

theorem wellFormed_powerLiteral {digit : Char} {exponent : List Char} (hdigit : Text.isDigit digit)
    (hexponent : ∀ c ∈ exponent, Text.isDigit c) (hne : exponent ≠ []) :
    (powerLiteral digit exponent).WellFormed := by
  refine ⟨List.forall_mem_singleton.2 hdigit, .inl ⟨rfl, rfl⟩, nofun, nofun, ?_⟩
  rintro _ ⟨⟩
  exact ⟨.inl rfl, .inl rfl, hexponent, hne⟩

/-- The largest power of ten that is finite, and numbers of twice its size. -/
theorem readings_finite_iff_powers :
    Settled (text "1e308").strictNumber ∧ ¬ Settled (text "2e308").strictNumber ∧
    (number (.whole (tenTo 309))).lenientNumber = .error .overflow ∧
    ∃ x, (text "-$2e308").lenientNumber = .ok x ∧ Real.parts x = .infinite true := by
  obtain ⟨hfinite, -⟩ := readings_finite_iff (text "1e308")
  obtain ⟨hinfinite, -⟩ := readings_finite_iff (text "2e308")
  obtain ⟨-, -, hwhole, -⟩ := readings_finite_iff (number (.whole (tenTo 309)))
  obtain ⟨-, -, -, -, hlenient⟩ := readings_finite_iff (text "-$2e308")
  have hexponent : ∀ c ∈ ['3', '0', '8'], Text.isDigit c := List.all_eq_true.1 (by decide)
  have hone : (powerLiteral '1' ['3', '0', '8']).WellFormed :=
    wellFormed_powerLiteral (by decide) hexponent nofun
  have htwo : (powerLiteral '2' ['3', '0', '8']).WellFormed :=
    wellFormed_powerLiteral (by decide) hexponent nofun
  have hwithin : (powerLiteral '1' ['3', '0', '8']).WithinReach := by
    unfold Literal.WithinReach
    decide +kernel
  have hbeyond : ¬ (powerLiteral '2' ['3', '0', '8']).WithinReach := by
    unfold Literal.WithinReach
    decide +kernel
  refine ⟨hfinite.2 ?_, fun h => hinfinite.1 h ?_, (hwhole _ rfl ?_).2, hlenient _ _ rfl ?_⟩
  · have htrim : Text.trim "1e308".toList = [] ++ (powerLiteral '1' ['3', '0', '8']).text := by
      decide
    have hread : Literal.plainReal? (Text.trim "1e308".toList) = some _ :=
      Literal.plainReal?_eq_some_iff.2 ⟨[], _, .inl rfl, hone, htrim, rfl⟩
    exact (Literal.isFinite_iff_not_beyond hread).1 (Literal.isFinite_signed hwithin [])
  · exact ⟨false, [], _, .inl rfl, htwo, hbeyond, by decide, rfl⟩
  · decide +kernel
  · exact ⟨['-'], _, .inr (.inr rfl), htwo, hbeyond, by decide, rfl⟩

/-- A text of five characters is an infinity for both readings, and a whole number of
four hundred digits fails them. -/
theorem large_numbers_escape :
    (∃ x, (text "1e400").strictNumber = .ok (some (.real x)) ∧
      Real.parts x = .infinite false) ∧
    (∃ x, (text "1e400").lenientNumber = .ok x ∧ Real.parts x = .infinite false) ∧
    (number (.whole (tenTo 400))).strictNumber = .error .overflow ∧
    (number (.whole (tenTo 400))).lenientNumber = .error .overflow := by
  have hexponent : ∀ c ∈ ['4', '0', '0'], Text.isDigit c := List.all_eq_true.1 (by decide)
  have hone : (powerLiteral '1' ['4', '0', '0']).WellFormed :=
    wellFormed_powerLiteral (by decide) hexponent nofun
  have hbeyond : ¬ (powerLiteral '1' ['4', '0', '0']).WithinReach := by
    unfold Literal.WithinReach
    decide +kernel
  have hreach : Real.reach ≤ (tenTo 400 : Int).natAbs := by decide +kernel
  refine ⟨strictNumber_of_beyond ?_, lenientNumber_of_beyond ?_, strictNumber_of_reach hreach,
    lenientNumber_of_reach hreach⟩
  · exact ⟨[], _, .inl rfl, hone, hbeyond, by decide, rfl⟩
  · exact ⟨[], _, .inl rfl, hone, hbeyond, by decide, rfl⟩

end Cell

end Gridbook
