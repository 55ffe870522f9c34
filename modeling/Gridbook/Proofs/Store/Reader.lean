/-
Gridbook/Proofs/Store/Reader.lean

How near the numbers that a store reads are to those in its rows.  A whole number that fits
a word is read as it is.  All others go through their JSON text, and what is known of the
numerals of texts holds of it: read by the C library it is its closest double, which for a
double is this one; read by the store itself it is this or a neighbour, and this if the
numeral is short.

Main statement: a store of either build reads its numbers like this (`approximates`).
-/
import Gridbook.Proofs.Number.Place
import Gridbook.Proofs.Store.Written

namespace Gridbook

open Gridbook.Real

theorem Real.Adjacent.of_eq {m n : Int} (h : m = n) : Adjacent m n := by
  subst h
  exact fun z _ => ⟨fun hz => by omega, fun hz => by omega⟩

namespace Numeral

variable {n : Number} {sign sign' : List Char} {l l' : Literal}

theorem Spells.unique (h : Spells n sign l) (h' : Spells n sign' l') : sign = sign' ∧ l = l' := by
  have hsplit := Literal.splitSign_sign h.numeral.sign h.numeral.literal
  rw [← h.text, h'.text, Literal.splitSign_sign h'.numeral.sign h'.numeral.literal] at hsplit
  obtain ⟨hsign, htext⟩ := Prod.mk.inj hsplit
  exact ⟨hsign.symm, text_injective h.numeral.literal h'.numeral.literal htext.symm⟩

theorem Spells.level_signed {x : Float} (h : Spells (.real x) sign l) (hx : isFinite x) :
    level (Literal.signed sign l) = level x := by
  obtain ⟨sign', l', h', hlevel, -⟩ := exists_spells_real hx
  obtain ⟨rfl, rfl⟩ := h.unique h'
  exact hlevel

end Numeral

namespace Reader

open Numeral

/-- What a store reads its numbers as. -/
structure Approximates (reader : Reader) : Prop where
  /-- A whole number that fits a word is read as it is. -/
  fits : ∀ n, fitsWord n → reader.number (.whole n) = .whole n
  /-- Any other one is read as its closest double or as a neighbour of that one. -/
  beyond : ∀ n, ¬ fitsWord n → ∃ y, reader.number (.whole n) = .real y ∧
    parts y ≠ .nan ∧ Adjacent (level (Native.realOf n)) (level y)
  /-- The JSON text of a finite double is a numeral that has the double for its closest
  one, and it is ordinary unless it is tiny. -/
  spelled : ∀ x, isFinite x → ∃ sign l, Spells (.real x) sign l ∧
    level (Literal.signed sign l) = level x ∧
    (magnitude l = 0 ∨ 1 ≤ magnitude l * 10 ^ 288 → IsOrdinary l)
  /-- A double is read as itself or as a neighbour, if its numeral is ordinary. -/
  real : ∀ x sign l, isFinite x → Spells (.real x) sign l → IsOrdinary l →
    ∃ y, reader.number (.real x) = .real y ∧ parts y ≠ .nan ∧ Adjacent (level x) (level y)
  /-- If its numeral is short, it is read as itself. -/
  short : ∀ x sign l, isFinite x → Spells (.real x) sign l → IsShort l →
    ∃ y, reader.number (.real x) = .real y ∧ parts y ≠ .nan ∧ level y = level x
  /-- The C library reads every double as itself, and whole numbers as closest ones. -/
  closest : reader = .closest → (∀ x, reader.number (.real x) = .real x) ∧
    ∀ n, ¬ fitsWord n → reader.number (.whole n) = .real (Native.realOf n)

variable {reader : Reader} {n : Int} {x : Float} {sign : List Char} {l : Literal}

theorem number_of_fitsWord (h : fitsWord n) : reader.number (.whole n) = .whole n :=
  if_pos h

theorem number_of_not_fitsWord (h : ¬ fitsWord n) :
    reader.number (.whole n) = .real (reader.real (.whole n)) :=
  if_neg h

/-- Of two readings the one is the closest double, and the other goes through the text. -/
theorem real_cases (reader : Reader) {n : Number} (h : Spells n sign l) :
    reader.real n = Reader.closest.real n ∨ reader.real n = value (decide (sign = ['-'])) l := by
  cases reader with
  | closest => exact .inl rfl
  | extended => exact .inr h.leading_eq

theorem near_whole (reader : Reader) (n : Int) : parts (reader.real (.whole n)) ≠ .nan ∧
    Adjacent (level (Native.realOf n)) (level (reader.real (.whole n))) := by
  obtain ⟨sign, l, hspells, hclosest, hordinary⟩ := exists_spells_whole n
  rcases reader.real_cases hspells with h | h
  · rw [h]
    exact ⟨parts_closest_ne_nan _ _ Nat.one_pos, .of_eq rfl⟩
  · rw [h, ← hclosest]
    exact ⟨(reads_value hordinary).number _, adjacent_value hordinary sign⟩

theorem near_real (reader : Reader) (hx : isFinite x) (h : Spells (.real x) sign l)
    (hordinary : IsOrdinary l) :
    parts (reader.real (.real x)) ≠ .nan ∧ Adjacent (level x) (level (reader.real (.real x))) := by
  rcases reader.real_cases h with h' | h'
  · rw [h']
    exact ⟨Number.parts_ne_nan_of_isFinite hx, .of_eq rfl⟩
  · rw [h', ← h.level_signed hx]
    exact ⟨(reads_value hordinary).number _, adjacent_value hordinary sign⟩

theorem level_real_short (reader : Reader) (hx : isFinite x) (h : Spells (.real x) sign l)
    (hshort : IsShort l) : level (reader.real (.real x)) = level x := by
  rcases reader.real_cases h with h' | h'
  · rw [h']
    rfl
  · rw [h', level_value_short hshort, h.level_signed hx]

theorem approximates (reader : Reader) : reader.Approximates where
  fits _ := number_of_fitsWord
  beyond n hn := ⟨_, number_of_not_fitsWord hn, reader.near_whole n⟩
  spelled _ hx := by
    obtain ⟨sign, l, h, hlevel, hexponent⟩ := exists_spells_real hx
    exact ⟨sign, l, h, hlevel, fun hsize => ⟨hexponent, hsize⟩⟩
  real _ _ _ hx h hordinary := ⟨_, rfl, reader.near_real hx h hordinary⟩
  short _ _ _ hx h hshort :=
    ⟨_, rfl, (reader.near_real hx h hshort.isOrdinary).1, reader.level_real_short hx h hshort⟩
  closest := by
    rintro rfl
    exact ⟨fun _ => rfl, fun _ => number_of_not_fitsWord⟩

/-- Not every double is read as itself. -/
example : (Number.real 0.046032).compare (extended.number (.real 0.046032)) = .lt := by
  decide +kernel

end Reader

end Gridbook
