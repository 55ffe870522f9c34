/-
Gridbook/Proofs/Query/Comparing.lean

Numeric comparisons of fields.  The store does not look at what a field is as a number; it
casts the field to a double, whatever it is, and compares this one.  A whole number that
fits a word is its closest double, any other number the double that its JSON text is read
as, a text the longest numeral that it starts with, or zero without one, and a list or an
object is zero.

So a text that is no number is not left out: it is compared as the number at its start or
as zero (`word_compared_as_zero`).  A whole number is compared as itself, unless the bound
is the double that it is rounded to.  A text that is a number is compared as this number
where it has a few digits only; else its double may be a neighbour of the closest one, which
a comparison with one of the two may show.  Of a double the same holds, unless the store
reads its numbers by the C library, which gives back the double.

Main statement: on the pages of a query with a comparison, a row that the rest of the query
asks for is shown exactly if the double of its field is on the right side, which is what it
is by the kind of the field (`compared_as_cast`).
-/
import Gridbook.Proofs.Number.Place
import Gridbook.Proofs.Query.Containing
import Gridbook.Proofs.Store.Reader

namespace Gridbook

open Gridbook.Real

/-! ### Fields as doubles -/

/-- The characters of a text that the store reads a numeral from: those before the first
NUL, without the blanks in front. -/
def Numeral.source (s : String) : List Char :=
  (s.toList.takeWhile (· != '\x00')).dropWhile Text.isAsciiBlank

namespace Cell

/-- The double that a field is cast to; null has none. -/
def castReal? [reader : Reader] : Cell → Option Float
  | null => none
  | bool b => some (Native.realOf (if b then 1 else 0))
  | number (.whole n) =>
    some (if fitsWord n then Native.realOf n else reader.real (.whole n))
  | number (.word w) => some (Native.realOf w.toInt)
  | number (.real x) => some (reader.real (.real x))
  | text s => some (Numeral.leading (s.toList.takeWhile (· != '\x00')))
  | c => some (Numeral.leading (Json.compact c))

theorem asReal_of_toReal? {n : Number} {x : Float} (h : n.toReal? = some x) :
    (Native.number n).asReal = .number (.real x) := by
  show Native.number (.real (n.toReal?.getD 0)) = _
  rw [h, Option.getD_some]

theorem asReal_whole [reader : Reader] (n : Int) :
    (Native.ofCell (.number (.whole n))).asReal = .number
      (.real (if fitsWord n then Native.realOf n else reader.real (.whole n))) := by
  show (Native.number (if fitsWord n then .whole n else .real (reader.real (.whole n)))).asReal = _
  split
  · next hfits => exact asReal_of_toReal? (Native.toReal?_of_fitsWord hfits)
  · exact asReal_of_toReal? rfl

theorem asReal_bool [Reader] (b : Bool) :
    (Native.ofCell (.bool b)).asReal = .number (.real (Native.realOf (if b then 1 else 0))) := by
  refine asReal_of_toReal? (Native.toReal?_of_fitsWord ?_)
  cases b with
  | false => decide
  | true => decide

theorem asReal_word [Reader] (w : Int64) :
    (Native.ofCell (.number (.word w))).asReal = .number (.real (Native.realOf w.toInt)) :=
  asReal_of_toReal? (Native.toReal?_of_fitsWord (fitsWord_iff.2 ⟨w.le_toInt, w.toInt_lt⟩))

theorem asReal_ofCell [Reader] (c : Cell) :
    (Native.ofCell c).asReal = (c.castReal?.map fun x => Native.number (.real x)).getD .null := by
  cases c with
  | null => rfl
  | bool b => exact asReal_bool b
  | number n =>
    cases n with
    | whole n => exact asReal_whole n
    | word w => exact asReal_word w
    | real x => rfl
  | text s => rfl
  | list items => rfl
  | object members => rfl
  | typed t => rfl

/-- Is the double of the field on the side of `v` that the comparison asks for? -/
def Passes [Reader] (c : Cell) (op : Comparison) (v : Float) : Prop :=
  ∃ x, c.castReal? = some x ∧ op.Admits v (.real x)

theorem passes_iff_of_castReal? [Reader] {c : Cell} {op : Comparison} {v x : Float}
    (h : c.castReal? = some x) : c.Passes op v ↔ op.Admits v (.real x) := by
  refine ⟨?_, fun hx => ⟨x, h, hx⟩⟩
  rintro ⟨y, hy, hadmits⟩
  cases h.symm.trans hy
  exact hadmits

theorem not_passes_null [Reader] {op : Comparison} {v : Float} : ¬ null.Passes op v := by
  rintro ⟨x, hx, -⟩
  cases hx

end Cell

/-! ### Fields by their kinds -/

namespace Native

theorem parts_realOf_ne_nan (n : Int) : parts (realOf n) ≠ .nan :=
  parts_closest_ne_nan (decide (n < 0)) n.natAbs Nat.one_pos

end Native

namespace Numeral

variable {sign : List Char} {l : Literal}

theorem parts_signed_ne_nan (sign : List Char) (l : Literal) :
    parts (Literal.signed sign l) ≠ .nan := by
  rw [Literal.signed_eq_closest]
  exact parts_closest_ne_nan _ _ (tenTo_pos _)

/-- The double that the store reads a numeral as. -/
def read (sign : List Char) (l : Literal) : Float :=
  value (decide (sign = ['-'])) l

theorem parts_read_ne_nan (sign : List Char) (h : IsOrdinary l) : parts (read sign l) ≠ .nan :=
  (reads_value h).number _

end Numeral

namespace Comparison

variable {op : Comparison} {v : Float} {sign : List Char} {l : Literal} {s : String}

open Numeral

/-- Two neighbours are on the same side of a bound that is none of them. -/
theorem admits_adjacent_iff (hv : isFinite v) {x y : Float} (hx : parts x ≠ .nan)
    (hy : parts y ≠ .nan) (h : Adjacent (level x) (level y)) (hvx : level v ≠ level x)
    (hvy : level v ≠ level y) : op.Admits v (.real y) ↔ op.Admits v (.real x) := by
  have hnumber := Number.parts_ne_nan_of_isFinite hv
  rw [admits_real_iff hnumber hy, admits_real_iff hnumber hx]
  exact beyond_adjacent_iff h (onGrid_level v) hvx hvy

theorem admits_congr (hv : isFinite v) {x y : Float} (hx : parts x ≠ .nan) (hy : parts y ≠ .nan)
    (h : level y = level x) : op.Admits v (.real y) ↔ op.Admits v (.real x) := by
  have hnumber := Number.parts_ne_nan_of_isFinite hv
  rw [admits_real_iff hnumber hy, admits_real_iff hnumber hx, h]

/-! #### Whole numbers -/

/-- The closest double of a whole number is on the side of the number, or it is the bound. -/
theorem admits_realOf_iff (hv : isFinite v) (n : Int) :
    op.Admits v (.real (Native.realOf n)) ↔
      op.Admits v (.whole n) ∧ level v ≠ level (Native.realOf n) := by
  rw [admits_real_iff (Number.parts_ne_nan_of_isFinite hv) (Native.parts_realOf_ne_nan n),
    admits_whole_iff hv]
  exact beyond_nearest_iff (Native.nearest_realOf n) (onGrid_level v)

/-- A whole number is compared as itself, unless the bound is its closest double, where this
is the double that it is cast to. -/
theorem passes_whole_iff [Reader] (hv : isFinite v) {n : Int}
    (hn : (Cell.number (.whole n)).castReal? = some (Native.realOf n)) :
    (Cell.number (.whole n)).Passes op v ↔
      op.Admits v (.whole n) ∧ level v ≠ level (Native.realOf n) := by
  rw [Cell.passes_iff_of_castReal? hn]
  exact admits_realOf_iff hv n

/-- One that does not fit a word may be cast to a neighbour. -/
theorem passes_large_iff [reader : Reader] (hv : isFinite v) {n : Int} (hn : ¬ fitsWord n)
    (hclosest : level v ≠ level (Native.realOf n))
    (hread : level v ≠ level (reader.real (.whole n))) :
    (Cell.number (.whole n)).Passes op v ↔ op.Admits v (.whole n) := by
  obtain ⟨hparts, hnear⟩ := reader.near_whole n
  have hcast : (Cell.number (.whole n)).castReal? = some (reader.real (.whole n)) :=
    congrArg some (if_neg hn)
  rw [Cell.passes_iff_of_castReal? hcast,
    admits_adjacent_iff hv (Native.parts_realOf_ne_nan n) hparts hnear hclosest hread,
    admits_realOf_iff hv, and_iff_left hclosest]

/-- A whole number of 53 bits is compared as itself. -/
theorem passes_small_iff [Reader] (hv : isFinite v) {n : Int} (hn : n.natAbs ≤ 2 ^ 53) {c : Cell}
    (hc : c.castReal? = some (Native.realOf n)) : c.Passes op v ↔ op.Admits v (.whole n) := by
  have hnumber := Number.parts_ne_nan_of_isFinite hv
  rw [Cell.passes_iff_of_castReal? hc, admits_real_iff hnumber (Native.parts_realOf_ne_nan n),
    admits_whole_iff hv, Native.level_realOf hn]

theorem castReal?_small [Reader] {n : Int} (hn : n.natAbs ≤ 2 ^ 53) :
    (Cell.number (.whole n)).castReal? = some (Native.realOf n) :=
  congrArg some (if_pos (fitsWord_iff.2 (by omega)))

theorem passes_zero_iff [Reader] (hv : isFinite v) {c : Cell} (hc : c.castReal? = some 0) :
    c.Passes op v ↔ op.Admits v (.whole 0) :=
  passes_small_iff hv (Nat.zero_le _) (hc.trans (by decide +kernel))

/-! #### Doubles -/

/-- A double is compared as itself, unless the bound is the double or the neighbour that it
is read as. -/
theorem passes_real_iff [reader : Reader] (hv : isFinite v) {x : Float} (hx : isFinite x)
    (h : Spells (.real x) sign l) (hordinary : IsOrdinary l) (hself : level v ≠ level x)
    (hread : level v ≠ level (reader.real (.real x))) :
    (Cell.number (.real x)).Passes op v ↔ op.Admits v (.real x) := by
  obtain ⟨hparts, hnear⟩ := reader.near_real hx h hordinary
  rw [Cell.passes_iff_of_castReal? rfl]
  exact admits_adjacent_iff hv (Number.parts_ne_nan_of_isFinite hx) hparts hnear hself hread

/-- A double that is written with a few digits only is compared as itself. -/
theorem passes_real_short_iff [reader : Reader] (hv : isFinite v) {x : Float} (hx : isFinite x)
    (h : Spells (.real x) sign l) (hshort : IsShort l) :
    (Cell.number (.real x)).Passes op v ↔ op.Admits v (.real x) := by
  rw [Cell.passes_iff_of_castReal? rfl]
  exact admits_congr hv (Number.parts_ne_nan_of_isFinite hx)
    (reader.near_real hx h hshort.isOrdinary).1 (reader.level_real_short hx h hshort)

/-! #### Texts -/

/-- A text that no numeral starts is compared as zero. -/
theorem passes_word_iff [Reader] (hv : isFinite v)
    (h : ∀ sign l, IsNumeral sign l → ¬ sign ++ l.text <+: source s) :
    (Cell.text s).Passes op v ↔ op.Admits v (.whole 0) :=
  passes_zero_iff hv (congrArg some (leading_of_none h))

/-- A text that a numeral starts is compared as the double that this is read as. -/
theorem castReal?_text [Reader] (h : IsLongest sign l (source s)) :
    (Cell.text s).castReal? = some (read sign l) :=
  congrArg some (leading_of_isLongest h)

/-- The bound decides nothing else, where it is neither the double that the numeral is read
as nor the closest one. -/
theorem passes_ordinary_iff [Reader] (hv : isFinite v) (h : IsLongest sign l (source s))
    (hordinary : IsOrdinary l) (hclosest : level v ≠ level (Literal.signed sign l))
    (hread : level v ≠ level (read sign l)) :
    (Cell.text s).Passes op v ↔ op.Admits v (.real (Literal.signed sign l)) := by
  rw [Cell.passes_iff_of_castReal? (castReal?_text h)]
  exact admits_adjacent_iff hv (parts_signed_ne_nan sign l) (parts_read_ne_nan sign hordinary)
    (adjacent_value hordinary sign) hclosest hread

theorem passes_short_iff [Reader] (hv : isFinite v) (h : IsLongest sign l (source s))
    (hshort : IsShort l) :
    (Cell.text s).Passes op v ↔ op.Admits v (.real (Literal.signed sign l)) := by
  rw [Cell.passes_iff_of_castReal? (castReal?_text h)]
  exact admits_congr hv (parts_signed_ne_nan sign l) (parts_read_ne_nan sign hshort.isOrdinary)
    (level_value_short hshort sign)

/-- A text that is a plain number, and is written in ASCII, starts with the numeral of this
number. -/
theorem isLongest_of_strictNumber {x : Float} (hwritten : IsWritten s.toList)
    (h : (Cell.text s).strictNumber = .ok (some (.real x))) :
    ∃ sign l, IsLongest sign l (source s) ∧ x = Literal.signed sign l := by
  have hplain : Literal.plainReal? (Text.trim s.toList) = some x := by
    obtain ⟨y, hy, hxy⟩ := Option.map_eq_some_iff.1 (Except.ok.inj h)
    cases hxy
    exact hy
  -- there is no NUL among the characters that print, so the text is read to its end
  have hwhole : s.toList.takeWhile (· != '\x00') = s.toList := by
    refine List.takeWhile_eq_self_iff.2 fun c hc => bne_iff_ne.2 ?_
    rintro rfl
    rcases hwritten _ hc with hblank | ⟨hlow, -⟩
    · exact absurd hblank (by decide)
    · exact absurd hlow (by decide)
  obtain ⟨sign, l, hlongest, hx, -⟩ := isLongest_of_plain hwritten hplain
  exact ⟨sign, l, by rwa [source, hwhole], hx⟩

theorem not_isPart_bracket : ¬ Literal.IsPart '[' := by
  unfold Literal.IsPart
  decide

theorem not_isPart_brace : ¬ Literal.IsPart '{' := by
  unfold Literal.IsPart
  decide

/-- What a comparison with a bound makes of a field, by its kind. -/
structure ByKind [reader : Reader] (op : Comparison) (v : Float) : Prop where
  /-- A missing field passes no comparison. -/
  null : ¬ Cell.null.Passes op v
  /-- A truth value is one or zero. -/
  bool : ∀ b, (Cell.bool b).Passes op v ↔ op.Admits v (.whole (if b then 1 else 0))
  /-- A whole number that fits a word is itself, but the bound that it is rounded to does
  not differ from it. -/
  whole : ∀ n, fitsWord n → ((Cell.number (.whole n)).Passes op v ↔
    op.Admits v (.whole n) ∧ level v ≠ level (Native.realOf n))
  /-- Up to 53 bits, nothing is rounded. -/
  small : ∀ n : Int, n.natAbs ≤ 2 ^ 53 →
    ((Cell.number (.whole n)).Passes op v ↔ op.Admits v (.whole n))
  /-- One that does not fit a word may be read as a neighbour of its closest double, so that
  a bound that is one of the two may not tell. -/
  beyond : ∀ n, ¬ fitsWord n → level v ≠ level (Native.realOf n) →
    level v ≠ level (reader.real (.whole n)) →
    ((Cell.number (.whole n)).Passes op v ↔ op.Admits v (.whole n))
  /-- A double is itself, if its JSON text is short. -/
  shortReal : ∀ x sign l, isFinite x → Spells (.real x) sign l → IsShort l →
    ((Cell.number (.real x)).Passes op v ↔ op.Admits v (.real x))
  /-- With a longer one it may be read as a neighbour. -/
  real : ∀ x sign l, isFinite x → Spells (.real x) sign l → IsOrdinary l →
    level v ≠ level x → level v ≠ level (reader.real (.real x)) →
    ((Cell.number (.real x)).Passes op v ↔ op.Admits v (.real x))
  /-- To the C library a double is itself, and no whole number has another double than its
  closest one. -/
  closest : reader = .closest →
    (∀ x, (Cell.number (.real x)).Passes op v ↔ op.Admits v (.real x)) ∧
    ∀ n, (Cell.number (.whole n)).Passes op v ↔
      op.Admits v (.whole n) ∧ level v ≠ level (Native.realOf n)
  /-- What numbers are read as is not far from them. -/
  near : reader.Approximates
  /-- A list is zero. -/
  list : ∀ items, (Cell.list items).Passes op v ↔ op.Admits v (.whole 0)
  /-- An object is zero. -/
  object : ∀ members, (Cell.object members).Passes op v ↔ op.Admits v (.whole 0)
  /-- A text that no numeral starts is zero. -/
  word : ∀ s, (∀ sign l, IsNumeral sign l → ¬ sign ++ l.text <+: source s) →
    ((Cell.text s).Passes op v ↔ op.Admits v (.whole 0))
  /-- A text is the numeral at its start, whatever follows, if this is short. -/
  short : ∀ s sign l, IsLongest sign l (source s) → IsShort l →
    ((Cell.text s).Passes op v ↔ op.Admits v (.real (Literal.signed sign l)))
  /-- A longer numeral may be read as a neighbour of its closest double, so that a bound that
  is one of the two may not tell. -/
  ordinary : ∀ s sign l, IsLongest sign l (source s) → IsOrdinary l →
    Adjacent (level (Literal.signed sign l)) (level (read sign l)) ∧
    (level v ≠ level (Literal.signed sign l) → level v ≠ level (read sign l) →
      ((Cell.text s).Passes op v ↔ op.Admits v (.real (Literal.signed sign l))))
  /-- The numeral of a text that is a plain number is this number. -/
  plain : ∀ s x, IsWritten s.toList → (Cell.text s).strictNumber = .ok (some (.real x)) →
    ∃ sign l, IsLongest sign l (source s) ∧ x = Literal.signed sign l

theorem byKind_of_isFinite [reader : Reader] (op : Comparison) (hv : isFinite v) :
    op.ByKind v where
  null := Cell.not_passes_null
  bool b := passes_small_iff hv (by cases b <;> decide) rfl
  whole _ hn := passes_whole_iff hv (congrArg some (if_pos hn))
  small _ hn := passes_small_iff hv hn (castReal?_small hn)
  beyond _ := passes_large_iff hv
  shortReal _ _ _ := passes_real_short_iff hv
  real _ _ _ := passes_real_iff hv
  closest := by
    rintro rfl
    exact ⟨fun _ => Cell.passes_iff_of_castReal? rfl,
      fun _ => passes_whole_iff hv (congrArg some (ite_self _))⟩
  near := reader.approximates
  list _ := passes_zero_iff hv (congrArg some (leading_of_head rfl not_isPart_bracket _))
  object _ := passes_zero_iff hv (congrArg some (leading_of_head rfl not_isPart_brace _))
  word _ := passes_word_iff hv
  short _ _ _ := passes_short_iff hv
  ordinary _ sign _ h hordinary :=
    ⟨adjacent_value hordinary sign, passes_ordinary_iff hv h hordinary⟩
  plain _ _ := isLongest_of_strictNumber

end Comparison

/-! ### The test of a comparison -/

namespace Condition

variable {op : Comparison} {v : Float}

/-- The test of a comparison with a double. -/
def beyond (op : Comparison) (v : Float) : Test :=
  if op = .greater then .greater (.number (.real v)) else .less (.number (.real v))

theorem bind_numeric (hop : op.isNumeric) (hv : v.isNaN = false) :
    Test.bind op (.number (.real v)) = .ok (beyond op v) := by
  have hbound : Native.bindBound (.number (.real v)) = .ok (.number (.real v)) := by
    show Except.ok (Native.bindReal v) = _
    rw [Native.bindReal, hv]
    rfl
  cases op with
  | greater => exact congrArg (Except.map Test.greater) hbound
  | less => exact congrArg (Except.map Test.less) hbound
  | equal => cases hop
  | contains => cases hop

/-- A field passes if its double is on the right side. -/
theorem passes_beyond_iff [Reader] (hop : op.isNumeric) (c : Cell) :
    passes (.ofCell c) (beyond op v) = .ok true ↔ c.Passes op v := by
  have hcast := Cell.asReal_ofCell c
  unfold Cell.Passes
  cases hx : c.castReal? with
  | none =>
    rw [hx] at hcast
    change _ = Native.null at hcast
    cases op with
    | greater => simp [beyond, passes, hcast, Native.isBefore]
    | less => simp [beyond, passes, hcast, Native.isBefore]
    | equal => cases hop
    | contains => cases hop
  | some x =>
    rw [hx] at hcast
    change _ = Native.number (.real x) at hcast
    cases op with
    | greater => simp [beyond, passes, hcast, Native.isBefore, Native.compare, Comparison.Admits]
    | less => simp [beyond, passes, hcast, Native.isBefore, Native.compare, Comparison.Admits]
    | equal => cases hop
    | contains => cases hop

end Condition

namespace Filter

variable {f : Filter} {op : Comparison} {v : Float} {r : Row}

/-- The filter with a double for its bound. -/
def bounded (f : Filter) (v : Float) : Filter :=
  { f with value := .number (.real v) }

/-- A comparison with what spells a double passes the check with this double. -/
theorem check_numeric (hcolumn : f.column ≠ "") (hop : Comparison.ofName? f.operator = some op)
    (hnumeric : op.isNumeric) (hvalue : f.value.spelledNumber = .ok v) :
    f.check = .ok (f.bounded v) := by
  have hempty : f.column.isEmpty = false := String.isEmpty_eq_false_iff.2 hcolumn
  rw [check, hempty, if_neg Bool.false_ne_true, hop]
  dsimp only
  rw [if_pos hnumeric, bound, hvalue]
  rfl

/-- What the store makes of it. -/
def comparing (f : Filter) (op : Comparison) (v : Float) : Condition :=
  ⟨Path.ofColumn f.column, Condition.beyond op v⟩

theorem ofFilter_bounded (hnumeric : op.isNumeric) (hv : v.isNaN = false) :
    Condition.ofFilter (f.bounded v) op = .ok (f.comparing op v) := by
  rw [Condition.ofFilter, bounded, Condition.bind_numeric hnumeric hv]
  rfl

theorem sound_numeric (hplain : Path.isPlain f.column) (hcolumn : f.column ≠ "")
    (hop : Comparison.ofName? f.operator = some op) (hnumeric : op.isNumeric)
    (hvalue : f.value.spelledNumber = .ok v) (hv : v.isNaN = false) : f.Sound where
  column := hplain
  value := by
    refine ⟨_, op, _, check_numeric hcolumn hop hnumeric hvalue, hop, ?_,
      Condition.bind_numeric hnumeric hv, ?_⟩
    · cases op with
      | greater => rfl
      | less => rfl
      | equal => cases hnumeric
      | contains => cases hnumeric
    · unfold Condition.beyond
      split <;> trivial

/-- On a row that can be looked into, a comparison holds where the field passes it. -/
theorem holds_bounded_iff [Reader] (hplain : Path.isPlain f.column)
    (hop : Comparison.ofName? f.operator = some op) (hnumeric : op.isNumeric)
    (hv : v.isNaN = false) (hr : Native.wellFormedMembers r.fields) :
    (f.bounded v).Holds r ↔ (r.fields.cell f.column).Passes op v := by
  have hc := ofFilter_bounded (f := f) hnumeric hv
  rw [← Condition.passes_beyond_iff hnumeric]
  have hholds : (f.comparing op v).holds r.fields =
      Condition.passes (.ofCell (r.fields.cell f.column)) (Condition.beyond op v) := by
    rw [Condition.holds, comparing, Native.extract_of_plain hplain hr]
    rfl
  rw [← hholds]
  constructor
  · rintro ⟨op', c, hop', hc', h⟩
    cases hop.symm.trans hop'
    cases hc.symm.trans hc'
    exact h
  · exact fun h => ⟨op, _, hop, hc, h⟩

end Filter

/-! ### Queries with a comparison -/

namespace Store

variable {s : Store} {f : Filter} {op : Comparison} {v : Float}

/-- A comparison with what spells a finite double passes the check with this double.  On a
page that is answered, and on all others of the query, it leaves exactly the rows whose
field passes it, which is told by the double that the field is cast to; what this makes of
a field of each kind is said in `Comparison.ByKind`.  And if the rows in scope can be looked
into, and the rest of the query is in order, every page is answered. -/
theorem compared_as_cast [Reader] (hs : s.Reachable) (hplain : Path.isPlain f.column)
    (hcolumn : f.column ≠ "") (hop : Comparison.ofName? f.operator = some op)
    (hnumeric : op.isNumeric) (hvalue : f.value.spelledNumber = .ok v) (hv : isFinite v) :
    f.check = .ok (f.bounded v) ∧ op.ByKind v ∧
    (∀ sel sort page limit q, s.page (sel.filtered f) sort page limit = .ok q →
      ∃ valid order rows, checked sel = .ok valid ∧ Sorting.order sort = .ok order ∧
        s.Lists (valid.filtered (f.bounded v)) order rows ∧
        ∀ r ∈ s.rows,
          (r ∈ rows ↔ valid.Matches r ∧ (r.fields.cell f.column).Passes op v)) ∧
    ∀ sel : Selection, sel.Sound →
      (∀ r ∈ s.rows, sel.covers r → Native.wellFormedMembers r.fields) →
      ∀ sort order, Sorting.order sort = .ok order → order.Sound →
      ∀ p l : Int, 1 ≤ p → 1 ≤ l → l < 2 ^ 63 → (p - 1) * l < 2 ^ 63 →
        ∃ q, s.page (sel.filtered f) sort (some p) (some l) = .ok q := by
  have hcheck := Filter.check_numeric hcolumn hop hnumeric hvalue
  have hnumber := isNaN_of_isFinite hv
  refine ⟨hcheck, Comparison.byKind_of_isFinite op hv, ?_, ?_⟩
  · intro sel sort page limit q hq
    obtain ⟨valid', order, rows, hvalid', horder, hfinds, -⟩ := finds_of_page hq hs.integral.rowIds
    obtain ⟨valid, hvalid, rfl⟩ := checked_filtered hcheck hvalid'
    refine ⟨valid, order, rows, hvalid, horder, hfinds.lists, fun r hr => ?_⟩
    rw [(hfinds.spec hs.integral.rowIds).1 r, matches_filtered_iff, and_iff_right hr]
    refine and_congr_right fun hmatches => ?_
    -- the row is in scope, so the filter has been tested on it
    obtain ⟨b, hb⟩ := hfinds.tested (f := f.bounded v) hop
      (Filter.ofFilter_bounded hnumeric hnumber) hr hmatches.covers
    exact Filter.holds_bounded_iff hplain hop hnumeric hnumber (Condition.wellFormed_of_holds hb)
  · intro sel hsel hrows sort order horder hsound p l hp hl hfits hoffset
    have hsel' : (sel.filtered f).Sound := { hsel with
      filters := List.forall_mem_cons.2
        ⟨Filter.sound_numeric hplain hcolumn hop hnumeric hvalue hnumber, hsel.filters⟩ }
    obtain ⟨valid, rows, hvalid, hfinds⟩ :=
      exists_finds hsel' hsound ⟨hs.hasTable .rows, hrows⟩ hs.integral.rowIds
    exact ⟨_, page_of_finds hvalid horder hfinds hp hl hfits hoffset⟩

/-- A text that starts with a number, a text without one, and a truth value, compared
with five. -/
theorem compared_as_cast_three :
    let u : Upload := ⟨[.text "a"], [[.text "12 oaks"], [.text "n/a"], [.bool true]], false⟩
    let s := empty.run [.ingest (some 1) (some "t") none u]
    let f : Filter := ⟨"a", "gt", .text " 5.0"⟩
    ∃ q rows, s.page (Selection.filtered f ⟨some 1, none, [], []⟩) none (some 1) (some 10) = .ok q ∧
      s.Lists (Selection.filtered (f.bounded 5) ⟨some 1, none, [], []⟩) ⟨none, false⟩ rows ∧
      ∀ r ∈ s.rows, r ∈ rows ↔ (r.fields.cell "a").label = "12 oaks" := by
  intro u s f
  let sel : Selection := ⟨some 1, none, [], []⟩
  obtain ⟨-, -, hshows, hanswers⟩ := @compared_as_cast s f .greater 5 _ ⟨_, rfl⟩ (by decide)
    (by decide) rfl rfl (by decide +kernel) (by decide +kernel)
  have hwell : ∀ r ∈ s.rows, Native.wellFormedMembers r.fields := by decide +kernel
  have hone : ∀ n ∈ sel.owner, fitsWord n := by
    rintro n ⟨⟩
    decide
  obtain ⟨q, hq⟩ := hanswers sel ⟨hone, nofun, nofun, nofun⟩ (fun r hr _ => hwell r hr) none
    ⟨none, false⟩ rfl nofun 1 10 (by decide) (by decide) (by decide) (by decide)
  obtain ⟨valid, order, rows, hvalid, horder, hlists, hrows⟩ := hshows sel none _ _ q hq
  cases (show checked sel = .ok sel from rfl).symm.trans hvalid
  cases (show Sorting.order none = .ok ⟨none, false⟩ from rfl).symm.trans horder
  refine ⟨q, rows, hq, hlists, fun r hr => ?_⟩
  have hmatches : sel.Matches r :=
    ⟨(by decide +kernel : ∀ r ∈ s.rows, sel.covers r) r hr, nofun, nofun⟩
  have hcasts : ∀ r ∈ s.rows, (r.fields.cell "a").castReal?.map
      (fun x => decide ((Number.real 5).compare (.real x) = .lt)) =
        some (decide ((r.fields.cell "a").label = "12 oaks")) := by
    decide +kernel
  obtain ⟨x, hx, hside⟩ := Option.map_eq_some_iff.1 (hcasts r hr)
  rw [hrows r hr, and_iff_right hmatches]
  exact (Cell.passes_iff_of_castReal? hx).trans (decide_eq_decide.1 hside)

/-- A text that is no number is less than five; a whole number does not exceed the one
before it, which is its closest double; and a decimal exceeds its own closest double. -/
theorem word_compared_as_zero :
    let s (c : Cell) := empty.run [.ingest (some 1) (some "t") none ⟨[.text "a"], [[c]], false⟩]
    let found (operator : String) (bound : Float) (c : Cell) : Option Nat :=
      ((s c).rowCount ⟨some 1, none, [⟨"a", operator, .number (.real bound)⟩], []⟩).toOption
    (Cell.text "n/a").strictNumber = .ok none ∧
      found "lt" 5 (.text "n/a") = some 1 ∧
    ((Number.real 9007199254740992).compare (.whole 9007199254740993) = .lt ∧
      found "gt" 9007199254740992 (.number (.whole 9007199254740993)) = some 0) ∧
    (∃ n, (Cell.text "0.046032").strictNumber = .ok (some n) ∧
      n.compare (.real 0.046032) = .eq) ∧
      found "gt" 0.046032 (.text "0.046032") = some 1 := by
  intro s found
  refine ⟨rfl, ?_, ⟨?_, ?_⟩, ⟨_, rfl, ?_⟩, ?_⟩
  all_goals decide +kernel

end Store

end Gridbook
