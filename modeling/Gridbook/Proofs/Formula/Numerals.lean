/-
Gridbook/Proofs/Formula/Numerals.lean

Texts that are numbers.  Three readers take a plain number from a text: the strict
reading of a cell trims blanks off its ends, the lenient one drops blanks, commas and
money signs wherever they stand, and a formula is cut into tokens.  A plain number
has no such character in it (`isNumberFormatting_of_isPart`), so on a text that the
strict reading takes, the three come to the same double.

A literal has no sign of its own: a formula reads one in front as an operator, and
there is no operator for a plus without a left side.

Main statement: `readings_agree`.
-/
import Gridbook.Proofs.Formula.Printing
import Gridbook.Proofs.Real.Whole

namespace Gridbook

/-! ### Characters of plain numbers -/

namespace Literal

/-- No character of a number is a blank, a comma or a money sign. -/
theorem isNumberFormatting_of_isPart {c : Char} (h : IsPart c) :
    Cell.isNumberFormatting c = false := by
  rcases h with hdigit | hc
  · refine Bool.or_eq_false_iff.2 ⟨isBlank_of_isDigit hdigit, decide_eq_false fun hmark => ?_⟩
    simp only [List.mem_cons, List.not_mem_nil, or_false] at hmark
    rcases hmark with rfl | rfl | rfl | rfl | rfl <;> revert hdigit <;> decide
  · simp only [List.mem_cons, List.not_mem_nil, or_false] at hc
    rcases hc with rfl | rfl | rfl | rfl | rfl <;> decide

theorem isBlank_of_isPart {c : Char} (h : IsPart c) : Text.isBlank c = false :=
  (Bool.or_eq_false_iff.1 (isNumberFormatting_of_isPart h)).1

/-- What the strict reading finds between the blanks of a text. -/
theorem trim_eq_iff {cs : List Char} {sign : List Char} (hsign : IsSign sign) {l : Literal}
    (hl : l.WellFormed) :
    Text.trim cs = sign ++ l.text ↔ ∃ lead tail, cs = lead ++ (sign ++ l.text) ++ tail ∧
      (∀ c ∈ lead, Text.isBlank c) ∧ ∀ c ∈ tail, Text.isBlank c := by
  constructor
  · intro h
    obtain ⟨lead, tail, hcs, hlead, htail⟩ := Text.exists_trimBy (p := Text.isBlank) cs
    exact ⟨lead, tail, h ▸ hcs, hlead, htail⟩
  · rintro ⟨lead, tail, rfl, hlead, htail⟩
    refine Text.trimBy_append hlead htail (fun c hc => ?_) ?_
    · exact isBlank_of_isPart (isPart_of_mem_signed hsign hl hc)
    · obtain ⟨c, cs, htext, -⟩ := text_eq_cons hl
      simp [htext]

/-- Without blanks and marks nothing but the number is left. -/
theorem filter_numberFormatting {lead sign tail : List Char} (hsign : IsSign sign) {l : Literal}
    (hl : l.WellFormed) (hlead : ∀ c ∈ lead, Text.isBlank c) (htail : ∀ c ∈ tail, Text.isBlank c) :
    (lead ++ (sign ++ l.text) ++ tail).filter (fun c => !Cell.isNumberFormatting c) =
      sign ++ l.text := by
  have hblank : ∀ cs : List Char, (∀ c ∈ cs, Text.isBlank c) →
      cs.filter (fun c => !Cell.isNumberFormatting c) = [] := by
    intro cs hcs
    refine List.filter_eq_nil_iff.2 fun c hc => ?_
    simp [Cell.isNumberFormatting, hcs c hc]
  have hnumber : (sign ++ l.text).filter (fun c => !Cell.isNumberFormatting c) =
      sign ++ l.text := by
    refine List.filter_eq_self.2 fun c hc => ?_
    rw [isNumberFormatting_of_isPart (isPart_of_mem_signed hsign hl hc)]
    rfl
  rw [List.filter_append, List.filter_append, hblank lead hlead, hblank tail htail, hnumber,
    List.nil_append, List.append_nil]

end Literal

/-! ### Readings of a cell -/

namespace Cell

theorem strictNumber_text {s : String} {n : Number} :
    (text s).strictNumber = .ok (some n) ↔
      ∃ x, Literal.plainReal? (Text.trim s.toList) = some x ∧ n = .real x := by
  rw [strictNumber, Except.ok.injEq, Option.map_eq_some_iff]
  simp only [eq_comm]

/-- A text that the strict reading takes is a plain number between blanks, and the
lenient one takes the same number. -/
theorem lenientText_of_strict {s : String} {x : Float}
    (h : Literal.plainReal? (Text.trim s.toList) = some x) : lenientText s = x := by
  obtain ⟨sign, l, hsign, hl, htrim, rfl⟩ := Literal.plainReal?_eq_some_iff.1 h
  obtain ⟨lead, tail, hcs, hlead, htail⟩ := (Literal.trim_eq_iff hsign hl).1 htrim
  have hread : Literal.plainReal? (sign ++ l.text) = some (Literal.signed sign l) :=
    Literal.plainReal?_eq_some_iff.2 ⟨sign, l, hsign, hl, rfl, rfl⟩
  rw [lenientText, hcs, Literal.filter_numberFormatting hsign hl hlead htail, hread]
  rfl

/-- A number whose strict reading is a number is that number. -/
theorem strictNumber_number {m n : Number} (h : (number m).strictNumber = .ok (some n)) :
    n = m := by
  cases m with
  | whole k =>
    obtain ⟨x, -, h⟩ := Outcome.bind_eq_ok.1 h
    cases h
    rfl
  | word w =>
    cases h
    rfl
  | real x =>
    rw [strictNumber, finiteNumber?] at h
    split at h
    · cases h
      rfl
    · cases h

theorem lenientNumber_of_toReal? {n : Number} {x : Float} (h : n.toReal? = some x) :
    (number n).lenientNumber = .ok (if Real.isFinite x then x else 0) := by
  rw [lenientNumber, realOfNumber, h]
  rfl

/-- The double of a number that the strict reading takes is finite. -/
theorem isFinite_of_toReal? {n : Number} {x : Float}
    (hn : (number n).strictNumber = .ok (some n)) (hx : n.toReal? = some x) : Real.isFinite x := by
  cases n with
  | whole k => exact Real.isFinite_of_ofRatio? hx
  | word w => exact Real.isFinite_of_ofRatio? hx
  | real y =>
    cases hx
    rw [strictNumber, finiteNumber?] at hn
    split at hn
    · next hfinite => exact hfinite
    · cases hn

/-- Where both readings of a cell have a result, and the strict one is a number, the
lenient one is its double. -/
theorem toReal?_of_readings {c : Cell} {n : Number} {x : Float}
    (hn : c.strictNumber = .ok (some n)) (hx : c.lenientNumber = .ok x) : n.toReal? = some x := by
  have hdouble : ∀ y : Float, finiteNumber? y = some n →
      n.toReal? = some (if Real.isFinite y then y else 0) := by
    intro y hy
    rw [finiteNumber?] at hy
    split at hy
    · next hfinite =>
      cases hy
      rw [if_pos hfinite]
      rfl
    · cases hy
  have htext : ∀ s : String, (Literal.plainReal? (Text.trim s.toList)).map Number.real = some n →
      n.toReal? = some (lenientText s) := by
    intro s hs
    obtain ⟨y, hy, rfl⟩ := Option.map_eq_some_iff.1 hs
    rw [lenientText_of_strict hy]
    rfl
  cases c with
  | number m =>
    obtain rfl := strictNumber_number hn
    obtain ⟨y, hy, rfl⟩ := Outcome.map_eq_ok.1 hx
    unfold realOfNumber at hy
    split at hy
    · next z hz =>
      cases hy
      rw [if_pos (isFinite_of_toReal? hn hz), hz]
    · cases hy
  | text s =>
    cases hx
    exact htext s (Except.ok.inj hn)
  | typed t =>
    cases t with
    | double y =>
      cases hx
      exact hdouble y (Except.ok.inj hn)
    | string s =>
      cases hx
      exact htext s (Except.ok.inj hn)
    | _ => cases hn
  | _ => cases hn

end Cell

/-! ### Formulas of one literal -/

namespace Formula

variable {s : String}

/-- A text without tokens is blank. -/
theorem isBlank_of_cut_nil {cs : List Char} (h : Cut cs []) : ∀ c ∈ cs, Text.isBlank c := by
  generalize hts : ([] : List Token) = ts at h
  induction h with
  | nil => nofun
  | blank hc _ ih => exact List.forall_mem_cons.2 ⟨hc, ih hts⟩
  | token => cases hts

/-- A text with one token is that token between blanks. -/
theorem exists_blanks_of_cut_singleton {cs : List Char} {t : Token} (h : Cut cs [t]) :
    ∃ lead tail, cs = lead ++ t.text ++ tail ∧ (∀ c ∈ lead, Text.isBlank c) ∧
      ∀ c ∈ tail, Text.isBlank c := by
  generalize hts : [t] = ts at h
  induction h with
  | nil => cases hts
  | @blank c cs ts hc _ ih =>
    obtain ⟨lead, tail, rfl, hlead, htail⟩ := ih hts
    exact ⟨c :: lead, tail, rfl, List.forall_mem_cons.2 ⟨hc, hlead⟩, htail⟩
  | @token t rest ts _ hrest _ =>
    cases hts
    exact ⟨[], rest, rfl, nofun, isBlank_of_cut_nil hrest⟩

/-- An expression that is written out with blanks is read as its tree. -/
theorem parse_of_spelled {e : Expression} (he : e.WellFormed) {lead : List Char}
    {spelled : List (Token × List Char)} (htokens : spelled.map (·.1) = e.tokens)
    (hlead : ∀ c ∈ lead, Text.isBlank c) (hgaps : ∀ p ∈ spelled, ∀ c ∈ p.2, Text.isBlank c)
    (hs : s.toList = lead ++ Token.spell spelled) : parse s = .ok ⟨s, e.tree, e.tree.columns⟩ := by
  refine parse_eq_ok_iff.2 ⟨rfl, rfl, e.tokens, ?_, (derives_tokens e).loosen (Nat.zero_le _)⟩
  rw [hs]
  exact cut_expression he htokens hlead hgaps

theorem parse_literal {l : Literal} (hl : l.WellFormed) {lead tail : List Char}
    (hs : s.toList = lead ++ l.text ++ tail) (hlead : ∀ c ∈ lead, Text.isBlank c)
    (htail : ∀ c ∈ tail, Text.isBlank c) : parse s = .ok ⟨s, .literal l.toReal, []⟩ := by
  let e : Expression := .literal l
  let spelled : List (Token × List Char) := [(.number l, tail)]
  have he : e.WellFormed := hl
  have htokens : spelled.map (·.1) = e.tokens := rfl
  have hgaps : ∀ p ∈ spelled, ∀ c ∈ p.2, Text.isBlank c := List.forall_mem_singleton.2 htail
  refine parse_of_spelled he htokens hlead hgaps ?_
  simp [hs, spelled, Token.spell, Token.text]

theorem parse_negated {l : Literal} (hl : l.WellFormed) {lead tail : List Char}
    (hs : s.toList = lead ++ ('-' :: l.text) ++ tail) (hlead : ∀ c ∈ lead, Text.isBlank c)
    (htail : ∀ c ∈ tail, Text.isBlank c) : parse s = .ok ⟨s, .negate (.literal l.toReal), []⟩ := by
  let e : Expression := .negate (.literal l)
  let spelled : List (Token × List Char) := [(.operator .minus, []), (.number l, tail)]
  have he : e.WellFormed := hl
  have htokens : spelled.map (·.1) = e.tokens := rfl
  have hgaps : ∀ p ∈ spelled, ∀ c ∈ p.2, Text.isBlank c :=
    List.forall_mem_cons.2 ⟨nofun, List.forall_mem_singleton.2 htail⟩
  refine parse_of_spelled he htokens hlead hgaps ?_
  simp [hs, spelled, Token.spell, Token.text, Operator.sign]

/-- The readers of numbers agree.  What the strict reading takes from a text, the
lenient one takes as well, and so does a formula, where no plus is in front: the text
is a literal, or the negation of one.  A text that is a single literal for a formula
is a number for the strict reading, the literal's.  On a cell of any kind the lenient
reading is the double of the strict one; and a number is its own strict reading, if
it has one. -/
theorem readings_agree :
    (∀ s n, (Cell.text s).strictNumber = .ok (some n) →
      ∃ x, n = .real x ∧ (Cell.text s).lenientNumber = .ok x ∧
        ((Text.trim s.toList).head? ≠ some '+' →
          ∃ (f : Formula) (l : Literal), parse s = .ok f ∧ f.columns = [] ∧
            (∀ fields, f.value fields = .ok (.real x)) ∧ l.WellFormed ∧
            (Text.trim s.toList = l.text ∧ f.tree = .literal l.toReal ∧ x = l.toReal ∨
              Text.trim s.toList = '-' :: l.text ∧ f.tree = .negate (.literal l.toReal) ∧
                x = -l.toReal))) ∧
    (∀ s l, Cut s.toList [.number l] →
      (Cell.text s).strictNumber = .ok (some (.real l.toReal))) ∧
    (∀ (c : Cell) n x, c.strictNumber = .ok (some n) → c.lenientNumber = .ok x →
      n.toReal? = some x) ∧
    ∀ m n, (Cell.number m).strictNumber = .ok (some n) → n = m := by
  refine ⟨?_, ?_, fun c n x => Cell.toReal?_of_readings, fun m n => Cell.strictNumber_number⟩
  · intro s n hn
    obtain ⟨x, hx, rfl⟩ := Cell.strictNumber_text.1 hn
    refine ⟨x, rfl, congrArg Except.ok (Cell.lenientText_of_strict hx), fun hplus => ?_⟩
    obtain ⟨sign, l, hsign, hl, htrim, rfl⟩ := Literal.plainReal?_eq_some_iff.1 hx
    obtain ⟨lead, tail, hs, hlead, htail⟩ := (Literal.trim_eq_iff hsign hl).1 htrim
    rcases hsign with rfl | rfl | rfl
    · have hparse := parse_literal hl hs hlead htail
      exact ⟨_, l, hparse, rfl, fun _ => rfl, hl, .inl ⟨htrim, rfl, rfl⟩⟩
    · rw [htrim] at hplus
      exact absurd rfl hplus
    · have hparse := parse_negated hl hs hlead htail
      exact ⟨_, l, hparse, rfl, fun _ => rfl, hl, .inr ⟨htrim, rfl, rfl⟩⟩
  · intro s l hcut
    have hl : l.WellFormed := hcut.wellFormed _ List.mem_cons_self
    have htrim : Text.trim s.toList = [] ++ l.text :=
      (Literal.trim_eq_iff (.inl rfl) hl).2 (exists_blanks_of_cut_singleton hcut)
    refine Cell.strictNumber_text.2 ⟨l.toReal, ?_, rfl⟩
    exact Literal.plainReal?_eq_some_iff.2 ⟨[], l, .inl rfl, hl, htrim, rfl⟩

/-- A half behind a minus, a half by itself, and a whole number. -/
theorem readings_agree_half :
    let half : Literal := ⟨[], ['.'], ['5'], none⟩
    (Cell.text " -.5\t").lenientNumber = .ok (-half.toReal) ∧
    (∃ f : Formula, parse " -.5\t" = .ok f ∧ f.columns = [] ∧
      ∀ fields, f.value fields = .ok (.real (-half.toReal))) ∧
    (Cell.text ".5\n").strictNumber = .ok (some (.real half.toReal)) ∧
    ∃ x, (Cell.number (.whole 3)).lenientNumber = .ok x ∧ (Number.whole 3).toReal? = some x := by
  intro half
  obtain ⟨htexts, hliterals, hcells, -⟩ := readings_agree
  have hhalf : half.WellFormed :=
    ⟨nofun, .inr rfl, List.forall_mem_singleton.2 (by decide), nofun, nofun⟩
  have htrim : Text.trim " -.5\t".toList = ['-', '.', '5'] := by decide
  have hstrict : (Cell.text " -.5\t").strictNumber = .ok (some (.real (-half.toReal))) :=
    Cell.strictNumber_text.2 ⟨_, Literal.plainReal?_eq_some_iff.2
      ⟨['-'], half, .inr (.inr rfl), hhalf, htrim, rfl⟩, rfl⟩
  obtain ⟨x, hx, hlenient, hformula⟩ := htexts " -.5\t" _ hstrict
  obtain rfl : -half.toReal = x := Number.real.inj hx
  obtain ⟨f, l, hf, hcolumns, hvalue, -⟩ := hformula (by rw [htrim]; decide)
  refine ⟨hlenient, ⟨f, hf, hcolumns, hvalue⟩, hliterals _ half ?_, ?_⟩
  · let e : Expression := .literal half
    let spelled : List (Token × List Char) := [(.number half, ['\n'])]
    have he : e.WellFormed := hhalf
    have htokens : spelled.map (·.1) = e.tokens := rfl
    have hlead : ∀ c ∈ ([] : List Char), Text.isBlank c := nofun
    have hgaps : ∀ p ∈ spelled, ∀ c ∈ p.2, Text.isBlank c :=
      List.forall_mem_singleton.2 (List.forall_mem_singleton.2 (by decide))
    exact cut_expression he htokens hlead hgaps
  · have hthree : (Cell.number (.whole 3)).strictNumber = .ok (some (.whole 3)) :=
      Cell.strictNumber_whole (show 3 < Real.reach by decide +kernel)
    obtain ⟨y, hy⟩ : ∃ y, (Number.whole 3).toReal? = some y :=
      Real.exists_ofInt?_iff.2 (show 3 < Real.reach by decide +kernel)
    have hread := Cell.lenientNumber_of_toReal? hy
    exact ⟨_, hread, hcells _ _ _ hthree hread⟩

end Formula

end Gridbook
