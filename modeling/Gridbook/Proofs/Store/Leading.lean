/-
Gridbook/Proofs/Store/Leading.lean

Which numeral the store reads from a text.  Its digits are those of ASCII; behind the
blanks at the start of a text it takes the longest numeral that stands there, whatever
follows it, and a text that no numeral starts is zero.

The scanner of numbers that knows the digits of every script reads the same from the part
of the text up to the first character that is not ASCII (`scan_append_ascii`), so what is
known of it holds of the store's.

Main statements: `leading_of_isLongest` and `leading_of_none`, and that a plain number
between blanks, if it is written in ASCII, is the numeral that is read
(`isLongest_of_plain`).
-/
import Gridbook.Proofs.Formula.Numerals
import Gridbook.Proofs.Store.Numeral

namespace Gridbook.Numeral

open Gridbook.Literal

/-! ### Digits of ASCII -/

/-- Is the character one of ASCII? -/
def isAscii (c : Char) : Bool :=
  c.toNat < 128

theorem isDigit_of_isAscii {c : Char} (h : isAscii c) : c.isDigit = Text.isDigit c := by
  have hall : ∀ n : Fin 128, (Char.ofNat n).isDigit = Text.isDigit (Char.ofNat n) := by decide
  have hc := hall ⟨c.toNat, of_decide_eq_true h⟩
  rwa [Char.ofNat_toNat] at hc

theorem isDigit_of_not_isAscii {c : Char} (h : isAscii c = false) : c.isDigit = false := by
  have hlarge : 128 ≤ c.toNat := Nat.not_lt.1 (of_decide_eq_false h)
  cases hdigit : c.isDigit with
  | false => rfl
  | true =>
    have hsmall : c.toNat ≤ 57 := of_decide_eq_true (Bool.and_eq_true_iff.1 hdigit).2
    omega

/-- No character of a numeral starts the text. -/
def Foreign (cs : List Char) : Prop :=
  ∀ c, cs.head? = some c → isAscii c = false

section

variable {a b : List Char}

theorem span_append (ha : ∀ c ∈ a, isAscii c) (hb : Foreign b) :
    (a ++ b).takeWhile Char.isDigit = a.takeWhile Text.isDigit ∧
      (a ++ b).dropWhile Char.isDigit = a.dropWhile Text.isDigit ++ b := by
  induction a with
  | nil =>
    cases b with
    | nil => exact ⟨rfl, rfl⟩
    | cons c b =>
      have hc := isDigit_of_not_isAscii (hb c rfl)
      rw [List.nil_append, List.takeWhile_cons_of_neg (by rw [hc]; decide),
        List.dropWhile_cons_of_neg (by rw [hc]; decide)]
      exact ⟨rfl, rfl⟩
  | cons c a ih =>
    obtain ⟨htake, hdrop⟩ := ih fun d hd => ha d (List.mem_cons_of_mem c hd)
    have hc := isDigit_of_isAscii (ha c List.mem_cons_self)
    rw [List.cons_append]
    cases hdigit : Text.isDigit c with
    | true =>
      rw [hdigit] at hc
      rw [List.takeWhile_cons_of_pos hc, List.dropWhile_cons_of_pos hc,
        List.takeWhile_cons_of_pos hdigit, List.dropWhile_cons_of_pos hdigit, htake, hdrop]
      exact ⟨rfl, rfl⟩
    | false =>
      rw [hdigit] at hc
      have hneg : ∀ {x : Bool}, x = false → ¬ x = true := fun h => by rw [h]; decide
      rw [List.takeWhile_cons_of_neg (hneg hc), List.dropWhile_cons_of_neg (hneg hc),
        List.takeWhile_cons_of_neg (hneg hdigit), List.dropWhile_cons_of_neg (hneg hdigit)]
      exact ⟨rfl, rfl⟩

theorem splitSign_append_foreign (hb : Foreign b) :
    splitSign (a ++ b) = ((splitSign a).1, (splitSign a).2 ++ b) := by
  cases a with
  | nil =>
    refine splitSign_eq_self fun c hc => ⟨?_, ?_⟩
    · rintro rfl
      exact absurd (hb _ hc) (by decide)
    · rintro rfl
      exact absurd (hb _ hc) (by decide)
  | cons c a =>
    by_cases hplus : c = '+'
    · rw [hplus]
      rfl
    by_cases hminus : c = '-'
    · rw [hminus]
      rfl
    have hself : ∀ ds : List Char, splitSign (c :: ds) = ([], c :: ds) := by
      refine fun ds => splitSign_eq_self fun d hd => ?_
      cases hd
      exact ⟨hplus, hminus⟩
    rw [List.cons_append, hself, hself]
    rfl

theorem scanExponent_cons (digit : Char → Bool) (c : Char) (cs : List Char) :
    scanExponent digit (c :: cs) =
      if (c = 'e' ∨ c = 'E') ∧ (splitSign cs).2.takeWhile digit ≠ [] then
        (some ⟨c, (splitSign cs).1, (splitSign cs).2.takeWhile digit⟩,
          (splitSign cs).2.dropWhile digit)
      else (none, c :: cs) := rfl

theorem scanExponent_append_foreign (ha : ∀ c ∈ a, isAscii c) (hb : Foreign b) :
    scanExponent Char.isDigit (a ++ b) =
      ((scanExponent Text.isDigit a).1, (scanExponent Text.isDigit a).2 ++ b) := by
  cases a with
  | nil =>
    cases b with
    | nil => rfl
    | cons c b =>
      have hmark : ¬ (c = 'e' ∨ c = 'E') := by
        rintro (rfl | rfl)
        · exact absurd (hb _ rfl) (by decide)
        · exact absurd (hb _ rfl) (by decide)
      have hnone : scanExponent Char.isDigit (c :: b) = (none, c :: b) :=
        if_neg fun h => hmark h.1
      rw [List.nil_append, hnone]
      rfl
  | cons c a =>
    have ha' : ∀ d ∈ (splitSign a).2, isAscii d := fun d hd => by
      have hmem : d ∈ (splitSign a).1 ++ (splitSign a).2 := List.mem_append_right _ hd
      rw [append_splitSign] at hmem
      exact ha d (List.mem_cons_of_mem c hmem)
    obtain ⟨htake, hdrop⟩ := span_append ha' hb
    rw [List.cons_append, scanExponent_cons, scanExponent_cons, splitSign_append_foreign hb]
    dsimp only
    rw [htake, hdrop]
    split
    · rfl
    · rfl

theorem splitFraction_of_ne (digit : Char → Bool) {cs : List Char}
    (h : ∀ c, cs.head? = some c → c ≠ '.') : splitFraction digit cs = ([], [], cs) := by
  unfold splitFraction
  split
  · exact absurd rfl (h '.' rfl)
  · rfl

theorem splitFraction_append_foreign (ha : ∀ c ∈ a, isAscii c) (hb : Foreign b) :
    splitFraction Char.isDigit (a ++ b) = ((splitFraction Text.isDigit a).1,
      (splitFraction Text.isDigit a).2.1, (splitFraction Text.isDigit a).2.2 ++ b) := by
  cases a with
  | nil =>
    refine splitFraction_of_ne _ fun c hc => ?_
    rintro rfl
    exact absurd (hb _ hc) (by decide)
  | cons c a =>
    by_cases hpoint : c = '.'
    · obtain ⟨htake, hdrop⟩ := span_append (fun d hd => ha d (List.mem_cons_of_mem c hd)) hb
      rw [hpoint, List.cons_append]
      show (['.'], (a ++ b).takeWhile Char.isDigit, (a ++ b).dropWhile Char.isDigit) =
        (['.'], a.takeWhile Text.isDigit, a.dropWhile Text.isDigit ++ b)
      rw [htake, hdrop]
    · have hne : ∀ ds : List Char, ∀ d, (c :: ds).head? = some d → d ≠ '.' := by
        rintro ds d ⟨⟩
        exact hpoint
      rw [List.cons_append, splitFraction_of_ne _ (hne _), splitFraction_of_ne _ (hne _)]
      rfl

/-- What is not ASCII ends the digits of every script as well as those of ASCII. -/
theorem scan_append_ascii (ha : ∀ c ∈ a, isAscii c) (hb : Foreign b) :
    scan Char.isDigit (a ++ b) = (scan Text.isDigit a).map fun r => (r.1, r.2 ++ b) := by
  obtain ⟨htake, hdrop⟩ := span_append ha hb
  have hrest : ∀ c ∈ a.dropWhile Text.isDigit, isAscii c := fun c hc =>
    ha c ((List.dropWhile_suffix _).mem hc)
  have hafter : ∀ c ∈ (splitFraction Text.isDigit (a.dropWhile Text.isDigit)).2.2, isAscii c :=
    fun c hc => hrest c ((splitFraction_suffix _).mem hc)
  have hfraction := splitFraction_append_foreign hrest hb
  have hexponent := scanExponent_append_foreign hafter hb
  unfold scan
  rw [htake, hdrop, hfraction]
  dsimp only
  rw [hexponent]
  split
  · rfl
  · rfl

end

/-! ### Numerals at the start of a text -/

/-- At most one sign, and a literal with digits of ASCII. -/
structure IsNumeral (sign : List Char) (l : Literal) : Prop where
  sign : IsSign sign
  literal : l.WellFormed
  ascii : ∀ c ∈ l.text, isAscii c

/-- The numeral starts the text, and no longer one does. -/
structure IsLongest (sign : List Char) (l : Literal) (cs : List Char) : Prop where
  numeral : IsNumeral sign l
  starts : sign ++ l.text <+: cs
  longest : ∀ sign' l', IsNumeral sign' l' → sign' ++ l'.text <+: cs →
    (sign' ++ l'.text).length ≤ (sign ++ l.text).length

section

variable {cs rest sign : List Char} {l : Literal}

theorem foreign_dropWhile (cs : List Char) : Foreign (cs.dropWhile isAscii) := by
  intro c hc
  have hne : cs.dropWhile isAscii ≠ [] := by
    intro hnil
    rw [hnil] at hc
    cases hc
  rw [List.head?_eq_some_head hne, Option.some.injEq] at hc
  rw [← hc]
  exact List.head_dropWhile_not isAscii hne

/-- The scanner of the store by that of all scripts. -/
theorem scan_eq_map (cs : List Char) :
    scan Char.isDigit cs = (scan Text.isDigit (cs.takeWhile isAscii)).map fun r =>
      (r.1, r.2 ++ cs.dropWhile isAscii) := by
  have hscan := scan_append_ascii (a := cs.takeWhile isAscii)
    (fun c hc => List.mem_takeWhile_imp hc) (foreign_dropWhile cs)
  rwa [List.takeWhile_append_dropWhile] at hscan

theorem isNumeral_of_scan (hsign : IsSign sign) (h : scan Char.isDigit cs = some (l, rest)) :
    IsNumeral sign l := by
  rw [scan_eq_map] at h
  obtain ⟨⟨m, left⟩, hscan, heq⟩ := Option.map_eq_some_iff.1 h
  cases heq
  refine ⟨hsign, wellFormed_of_scan hscan, fun c hc => ?_⟩
  have hmem : c ∈ m.text ++ left := List.mem_append_left _ hc
  rw [text_append_of_scan hscan] at hmem
  exact List.mem_takeWhile_imp hmem

/-- A literal at the start of a text is found, or a longer one. -/
theorem exists_scan (hl : l.WellFormed) (hascii : ∀ c ∈ l.text, isAscii c) (rest : List Char) :
    ∃ m left, scan Char.isDigit (l.text ++ rest) = some (m, left) ∧
      l.text.length ≤ m.text.length := by
  obtain ⟨m, left, hscan, hsuffix⟩ := scan_append hl (rest.takeWhile isAscii)
  have htext := congrArg List.length (text_append_of_scan hscan)
  rw [List.length_append, List.length_append] at htext
  have hlength := hsuffix.length_le
  refine ⟨m, left ++ (l.text ++ rest).dropWhile isAscii, ?_, by omega⟩
  rw [scan_eq_map, List.takeWhile_append_of_pos hascii, hscan]
  rfl

theorem splitSign_append_text (hsign : IsSign sign) (hl : l.WellFormed) (rest : List Char) :
    splitSign (sign ++ (l.text ++ rest)) = (sign, l.text ++ rest) := by
  rcases hsign with rfl | rfl | rfl
  · refine splitSign_eq_self fun d hd => ?_
    obtain ⟨c, cs, htext, hc⟩ := text_eq_cons hl
    rw [htext] at hd
    cases hd
    constructor
    · rintro rfl
      exact absurd hc (by decide)
    · rintro rfl
      exact absurd hc (by decide)
  · rfl
  · rfl

theorem scan?_eq (cs : List Char) :
    scan? cs = (scan Char.isDigit (splitSign cs).2).map fun r =>
      (value (decide ((splitSign cs).1 = ['-'])) r.1, r.2) := rfl

theorem text_injective {l m : Literal} (hl : l.WellFormed) (hm : m.WellFormed)
    (h : l.text = m.text) : l = m := by
  have hscan := scan_text hl
  rw [h, scan_text hm] at hscan
  cases hscan
  rfl

theorem exists_scan?_of_isLongest (h : IsLongest sign l cs) :
    ∃ rest, scan? cs = some (value (decide (sign = ['-'])) l, rest) := by
  obtain ⟨rest, hrest⟩ := h.starts
  rw [List.append_assoc] at hrest
  obtain ⟨m, left, hscan, hle⟩ := exists_scan h.numeral.literal h.numeral.ascii rest
  have hm := isNumeral_of_scan h.numeral.sign hscan
  have htext := text_append_of_scan hscan
  have hbegins : sign ++ m.text <+: cs := ⟨left, by rw [List.append_assoc, htext, hrest]⟩
  -- what is found is as long as the longest numeral, and so it is this one
  have hge := h.longest sign m hm hbegins
  rw [List.length_append, List.length_append] at hge
  have hsame := (List.append_inj htext (by omega)).1
  obtain rfl := text_injective hm.literal h.numeral.literal hsame
  refine ⟨left, ?_⟩
  rw [scan?_eq, ← hrest, splitSign_append_text h.numeral.sign h.numeral.literal]
  dsimp only
  rw [hscan]
  rfl

/-- The store reads the longest numeral behind the blanks at the start of a text. -/
theorem leading_of_isLongest (h : IsLongest sign l (cs.dropWhile Text.isAsciiBlank)) :
    leading cs = value (decide (sign = ['-'])) l := by
  obtain ⟨rest, hscan⟩ := exists_scan?_of_isLongest h
  unfold leading
  rw [hscan]
  rfl

/-- A text that no numeral starts reads as zero. -/
theorem leading_of_none (h : ∀ sign l, IsNumeral sign l →
    ¬ sign ++ l.text <+: cs.dropWhile Text.isAsciiBlank) : leading cs = 0 := by
  unfold leading
  rw [scan?_eq]
  cases hscan : scan Char.isDigit (splitSign (cs.dropWhile Text.isAsciiBlank)).2 with
  | none => rfl
  | some r =>
    obtain ⟨l, rest⟩ := r
    have hnumeral := isNumeral_of_scan (isSign_splitSign (cs.dropWhile Text.isAsciiBlank)) hscan
    refine absurd ⟨rest, ?_⟩ (h _ l hnumeral)
    rw [List.append_assoc, text_append_of_scan hscan, append_splitSign]

/-- A text that starts with none of the characters of numerals reads as zero. -/
theorem leading_of_head {c : Char} (hblank : Text.isAsciiBlank c = false) (hpart : ¬ IsPart c)
    (cs : List Char) : leading (c :: cs) = 0 := by
  refine leading_of_none fun sign l hnumeral hbegins => ?_
  rw [List.dropWhile_cons_of_neg (by rw [hblank]; decide)] at hbegins
  obtain ⟨d, ds, hds, -⟩ := text_eq_cons hnumeral.literal
  have hne : sign ++ l.text ≠ [] := by
    rw [hds]
    exact List.append_ne_nil_of_right_ne_nil _ (List.cons_ne_nil d ds)
  obtain ⟨e, es, hes⟩ := List.exists_cons_of_ne_nil hne
  rw [hes] at hbegins
  have hfirst := (List.cons_prefix_cons.1 hbegins).1
  refine hpart (isPart_of_mem_signed hnumeral.sign hnumeral.literal ?_)
  rw [hes, hfirst]
  exact List.mem_cons_self

/-! ### Plain numbers -/

/-- The text has no character but those of ASCII that print, and the blanks of ASCII. -/
def IsWritten (cs : List Char) : Prop :=
  ∀ c ∈ cs, Text.isAsciiBlank c ∨ 0x20 < c.toNat ∧ c.toNat < 0x7F

theorem lt_of_isAsciiBlank {c : Char} (h : Text.isAsciiBlank c) : c.toNat < 128 := by
  unfold Text.isAsciiBlank at h
  rw [Bool.or_eq_true, Bool.and_eq_true, decide_eq_true_eq, decide_eq_true_eq, beq_iff_eq] at h
  omega

theorem isBlank_of_isAsciiBlank {c : Char} (h : Text.isAsciiBlank c) : Text.isBlank c := by
  have hall : ∀ n : Fin 128, Text.isAsciiBlank (Char.ofNat n) → Text.isBlank (Char.ofNat n) := by
    decide
  have hc := hall ⟨c.toNat, lt_of_isAsciiBlank h⟩
  rw [Char.ofNat_toNat] at hc
  exact hc h

theorem isAsciiBlank_of_isPart {c : Char} (h : IsPart c) : Text.isAsciiBlank c = false :=
  Bool.eq_false_iff.2 fun hblank =>
    Bool.eq_false_iff.1 (isBlank_of_isPart h) (isBlank_of_isAsciiBlank hblank)

theorem isAscii_of_written (h : IsWritten cs) {c : Char} (hc : c ∈ cs) : isAscii c := by
  refine decide_eq_true ?_
  rcases h c hc with hblank | ⟨-, hlt⟩
  · exact lt_of_isAsciiBlank hblank
  · omega

/-- Every blank of such a text is one that the store knows. -/
theorem isAsciiBlank_of_written (h : IsWritten cs) {c : Char} (hc : c ∈ cs)
    (hblank : Text.isBlank c) : Text.isAsciiBlank c := by
  have hall : ∀ n : Fin 128, 0x20 < n.1 → n.1 < 0x7F → Text.isBlank (Char.ofNat n) = false := by
    decide
  rcases h c hc with h | ⟨hlow, hhigh⟩
  · exact h
  · have hnot := hall ⟨c.toNat, by omega⟩ hlow hhigh
    rw [Char.ofNat_toNat, hblank] at hnot
    cases hnot

/-- The blanks in front of a signed literal are skipped, and no more. -/
theorem dropWhile_append_signed {lead : List Char} (hlead : ∀ c ∈ lead, Text.isAsciiBlank c)
    (hsign : IsSign sign) (hl : l.WellFormed) (tail : List Char) :
    (lead ++ (sign ++ l.text ++ tail)).dropWhile Text.isAsciiBlank = sign ++ l.text ++ tail := by
  have hne : sign ++ l.text ≠ [] := by
    obtain ⟨c, ds, htext, -⟩ := text_eq_cons hl
    rw [htext]
    exact List.append_ne_nil_of_right_ne_nil _ (List.cons_ne_nil c ds)
  obtain ⟨c, ds, hds⟩ := List.exists_cons_of_ne_nil hne
  have hfirst : Text.isAsciiBlank c = false := by
    refine isAsciiBlank_of_isPart (isPart_of_mem_signed hsign hl ?_)
    rw [hds]
    exact List.mem_cons_self
  rw [List.dropWhile_append_of_pos hlead, hds, List.cons_append,
    List.dropWhile_cons_of_neg (by rw [hfirst]; decide)]

/-- A numeral that starts a text of which the rest is blank does not go on into the rest. -/
theorem IsNumeral.length_le {cs tail : List Char} (h : IsNumeral sign l)
    (hbegins : sign ++ l.text <+: cs ++ tail) (htail : ∀ c ∈ tail, Text.isBlank c) :
    (sign ++ l.text).length ≤ cs.length := by
  -- else there would be a blank in it
  by_contra hlonger
  obtain ⟨more, hmore⟩ := List.prefix_of_prefix_length_le (List.prefix_append _ tail) hbegins
    (by omega)
  rw [← hmore, List.prefix_append_right_inj] at hbegins
  have hnonempty : more ≠ [] := by
    rintro rfl
    rw [List.append_nil] at hmore
    rw [hmore] at hlonger
    exact hlonger (Nat.le_refl _)
  obtain ⟨c, ds, rfl⟩ := List.exists_cons_of_ne_nil hnonempty
  have hpart : IsPart c := by
    refine isPart_of_mem_signed h.sign h.literal ?_
    rw [← hmore]
    exact List.mem_append_right _ List.mem_cons_self
  have hblank := htail c (hbegins.mem List.mem_cons_self)
  rw [isBlank_of_isPart hpart] at hblank
  cases hblank

/-- A plain number between blanks is the numeral that is read, where it is written in
ASCII. -/
theorem isLongest_of_plain {x : Float} (hwritten : IsWritten cs)
    (h : plainReal? (Text.trim cs) = some x) :
    ∃ sign l, IsLongest sign l (cs.dropWhile Text.isAsciiBlank) ∧ x = signed sign l ∧
      Text.trim cs = sign ++ l.text := by
  obtain ⟨sign, l, hsign, hl, htrim, rfl⟩ := plainReal?_eq_some_iff.1 h
  obtain ⟨lead, tail, hcs, hlead, htail⟩ := (trim_eq_iff hsign hl).1 htrim
  have hmem : ∀ c, c ∈ lead ∨ c ∈ sign ++ l.text ∨ c ∈ tail → c ∈ cs := by
    intro c hc
    rw [hcs, List.mem_append, List.mem_append, or_assoc]
    exact hc
  have hdrop : cs.dropWhile Text.isAsciiBlank = sign ++ l.text ++ tail := by
    rw [hcs, List.append_assoc]
    exact dropWhile_append_signed (fun c hc =>
      isAsciiBlank_of_written hwritten (hmem c (.inl hc)) (hlead c hc)) hsign hl tail
  refine ⟨sign, l, ⟨⟨hsign, hl, fun c hc => ?_⟩, ⟨tail, hdrop.symm⟩, ?_⟩, rfl, htrim⟩
  · exact isAscii_of_written hwritten (hmem c (.inr (.inl (List.mem_append_right _ hc))))
  · intro sign' l' hnumeral hbegins
    rw [hdrop] at hbegins
    exact hnumeral.length_le hbegins htail

end

end Gridbook.Numeral
