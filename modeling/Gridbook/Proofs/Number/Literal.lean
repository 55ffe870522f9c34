/-
Gridbook/Proofs/Number/Literal.lean

What a number literal is, apart from the scanner that finds it: digits with an
optional fraction and an optional exponent.  Whatever follows a literal, the
scanner reads all of it and perhaps more (`scan_append`), and on the literal
alone it reads exactly its parts (`scan_text`).  So the literal that is scanned
is the longest one at its place.

The reader of spelled doubles accepts every literal, with the value that the
literal has (`real?_text`): a literal has no blank, no underscore, no sign in
front and is no word.  A plain number is a literal behind at most one sign
(`plainReal?_eq_some_iff`).
-/
import Gridbook.Number.Spelled
import Gridbook.Proofs.Text.Blank
import Mathlib.Data.List.TakeWhile

namespace Gridbook.Literal

/-! ### The parts of a literal -/

/-- A mark, at most one sign, at least one digit. -/
structure Exponent.WellFormed (e : Exponent) : Prop where
  mark : e.mark = 'e' ∨ e.mark = 'E'
  sign : e.sign = [] ∨ e.sign = ['+'] ∨ e.sign = ['-']
  digits : ∀ c ∈ e.digits, Text.isDigit c
  nonempty : e.digits ≠ []

/-- Digits, then perhaps a point with digits after it, at least one digit in
all, and perhaps an exponent. -/
structure WellFormed (l : Literal) : Prop where
  whole : ∀ c ∈ l.whole, Text.isDigit c
  point : l.point = [] ∧ l.fraction = [] ∨ l.point = ['.']
  fraction : ∀ c ∈ l.fraction, Text.isDigit c
  nonempty : l.whole ++ l.fraction ≠ []
  exponent : ∀ e, l.exponent = some e → e.WellFormed

/-! ### Characters that are no digits -/

@[simp] theorem isDigit_point : Text.isDigit '.' = false := by decide

@[simp] theorem isDigit_plus : Text.isDigit '+' = false := by decide

@[simp] theorem isDigit_minus : Text.isDigit '-' = false := by decide

theorem Exponent.WellFormed.isDigit_mark {e : Exponent} (h : e.WellFormed) :
    Text.isDigit e.mark = false := by
  rcases h.mark with hm | hm <;> rw [hm] <;> decide

theorem Exponent.WellFormed.mark_ne_point {e : Exponent} (h : e.WellFormed) : e.mark ≠ '.' := by
  rcases h.mark with hm | hm <;> rw [hm] <;> decide

/-! ### Reading an exponent -/

theorem splitSign_eq_self {cs : List Char} (h : ∀ c, cs.head? = some c → c ≠ '+' ∧ c ≠ '-') :
    splitSign cs = ([], cs) := by
  unfold splitSign
  split
  · exact absurd rfl (h '+' rfl).1
  · exact absurd rfl (h '-' rfl).2
  · rfl

/-- A sign that stands before a digit is split off. -/
theorem splitSign_append {sign ds : List Char}
    (hs : sign = [] ∨ sign = ['+'] ∨ sign = ['-']) (hd : ∀ c, ds.head? = some c → Text.isDigit c) :
    splitSign (sign ++ ds) = (sign, ds) := by
  rcases hs with rfl | rfl | rfl
  · refine splitSign_eq_self fun c hc => ⟨?_, ?_⟩ <;> rintro rfl <;> simpa using hd _ hc
  · rfl
  · rfl

/-- The exponent with more digits at its end. -/
def Exponent.extended (e : Exponent) (ds : List Char) : Exponent :=
  { e with digits := e.digits ++ ds }

@[simp] theorem Exponent.extended_nil (e : Exponent) : e.extended [] = e := by
  simp [Exponent.extended]

/-- An exponent takes the digits that follow it. -/
theorem scanExponent_append {e : Exponent} (h : e.WellFormed) (rest : List Char) :
    scanExponent Text.isDigit (e.text ++ rest)
      = (some (e.extended (rest.takeWhile Text.isDigit)), rest.dropWhile Text.isDigit) := by
  have hhead : ∀ c, (e.digits ++ rest).head? = some c → Text.isDigit c := by
    intro c hc
    obtain ⟨d, ds, hds⟩ := List.exists_cons_of_ne_nil h.nonempty
    rw [hds, List.cons_append, List.head?_cons, Option.some.injEq] at hc
    exact hc ▸ h.digits d (by simp [hds])
  have hsplit := splitSign_append h.sign hhead
  have htake : (e.digits ++ rest).takeWhile Text.isDigit
      = e.digits ++ rest.takeWhile Text.isDigit := List.takeWhile_append_of_pos h.digits
  have hdrop : (e.digits ++ rest).dropWhile Text.isDigit = rest.dropWhile Text.isDigit :=
    List.dropWhile_append_of_pos h.digits
  have hne : e.digits ++ rest.takeWhile Text.isDigit ≠ [] := by simp [h.nonempty]
  simp only [Exponent.text, List.cons_append, List.append_assoc, scanExponent, hsplit, htake,
    hdrop, h.mark, hne, ne_eq, not_false_eq_true, and_self, if_true, Exponent.extended]

/-- What is read as an exponent has the parts of one. -/
theorem wellFormed_of_scanExponent {cs : List Char} {e : Exponent}
    (h : (scanExponent Text.isDigit cs).1 = some e) : e.WellFormed := by
  cases cs with
  | nil => cases h
  | cons c cs =>
    simp only [scanExponent] at h
    split at h
    · next hc =>
      cases h
      refine ⟨hc.1, ?_, fun d hd => List.mem_takeWhile_imp hd, hc.2⟩
      unfold splitSign
      split <;> simp
    · cases h

theorem scanExponent_suffix (cs : List Char) : (scanExponent Text.isDigit cs).2 <:+ cs :=
  ⟨_, text_append_scanExponent Text.isDigit cs⟩

/-! ### Reading a literal -/

/-- A run of digits ends where the next character is no digit. -/
theorem takeWhile_digits {ds : List Char} (hds : ∀ c ∈ ds, Text.isDigit c) (cs : List Char)
    (hcs : ∀ c, cs.head? = some c → Text.isDigit c = false) :
    (ds ++ cs).takeWhile Text.isDigit = ds ∧ (ds ++ cs).dropWhile Text.isDigit = cs := by
  rw [List.takeWhile_append_of_pos hds, List.dropWhile_append_of_pos hds]
  cases cs with
  | nil => simp
  | cons c cs => simp [hcs c rfl]

theorem splitFraction_eq_self {cs : List Char} (h : ∀ c, cs.head? = some c → c ≠ '.') :
    splitFraction Text.isDigit cs = ([], [], cs) := by
  unfold splitFraction
  split
  · exact absurd rfl (h '.' rfl)
  · rfl

theorem splitFraction_suffix (cs : List Char) : (splitFraction Text.isDigit cs).2.2 <:+ cs :=
  ⟨_, (List.append_assoc ..).trans (append_splitFraction Text.isDigit cs)⟩

/-- A scan by its parts. -/
theorem scan_eq {cs whole point fraction after : List Char}
    (hw : cs.takeWhile Text.isDigit = whole)
    (hf : splitFraction Text.isDigit (cs.dropWhile Text.isDigit) = (point, fraction, after))
    (hn : ¬ (whole = [] ∧ fraction = [])) :
    scan Text.isDigit cs = some (⟨whole, point, fraction, (scanExponent Text.isDigit after).1⟩,
      (scanExponent Text.isDigit after).2) := by
  simp only [scan, hw, hf, hn, if_false]

/-- A literal with an exponent takes the digits that follow it. -/
theorem scan_append_of_exponent {l : Literal} (h : l.WellFormed) {e : Exponent}
    (he : l.exponent = some e) (rest : List Char) :
    scan Text.isDigit (l.text ++ rest)
      = some ({ l with exponent := some (e.extended (rest.takeWhile Text.isDigit)) },
          rest.dropWhile Text.isDigit) := by
  have hewf := h.exponent e he
  -- the mark ends the digits before it, and is no point
  have hmark : ∀ c, (e.text ++ rest).head? = some c → Text.isDigit c = false := by
    rintro _ ⟨⟩
    exact hewf.isDigit_mark
  have hpoint : ∀ c, (e.text ++ rest).head? = some c → c ≠ '.' := by
    rintro _ ⟨⟩
    exact hewf.mark_ne_point
  have hn : ¬ (l.whole = [] ∧ l.fraction = []) := by simpa using h.nonempty
  have hscan := scanExponent_append hewf rest
  have key : scan Text.isDigit (l.text ++ rest)
      = some (⟨l.whole, l.point, l.fraction, (scanExponent Text.isDigit (e.text ++ rest)).1⟩,
          (scanExponent Text.isDigit (e.text ++ rest)).2) := by
    rcases h.point with ⟨hp, hf⟩ | hp
    · have htext : l.text ++ rest = l.whole ++ (e.text ++ rest) := by simp [text, hp, hf, he]
      obtain ⟨htake, hdrop⟩ := takeWhile_digits h.whole _ hmark
      rw [htext]
      exact scan_eq htake (by rw [hdrop, splitFraction_eq_self hpoint, hp, hf]) hn
    · have htext : l.text ++ rest = l.whole ++ '.' :: (l.fraction ++ (e.text ++ rest)) := by
        simp [text, hp, he]
      obtain ⟨htake, hdrop⟩ :=
        takeWhile_digits h.whole ('.' :: (l.fraction ++ (e.text ++ rest))) (by simp)
      obtain ⟨hftake, hfdrop⟩ := takeWhile_digits h.fraction _ hmark
      rw [htext]
      exact scan_eq htake (by rw [hdrop, splitFraction, hftake, hfdrop, hp]) hn
  rw [key, hscan]

/-- A literal with a point and no exponent takes what continues its fraction. -/
theorem scan_append_of_point {l : Literal} (h : l.WellFormed) (he : l.exponent = none)
    (hp : l.point = ['.']) (rest : List Char) :
    scan Text.isDigit (l.text ++ rest)
      = some (⟨l.whole, ['.'], l.fraction ++ rest.takeWhile Text.isDigit,
            (scanExponent Text.isDigit (rest.dropWhile Text.isDigit)).1⟩,
          (scanExponent Text.isDigit (rest.dropWhile Text.isDigit)).2) := by
  have htext : l.text ++ rest = l.whole ++ '.' :: (l.fraction ++ rest) := by
    simp [text, hp, he]
  have hn : ¬ (l.whole = [] ∧ l.fraction ++ rest.takeWhile Text.isDigit = []) := by
    have := h.nonempty
    simp only [ne_eq, List.append_eq_nil_iff, not_and] at this ⊢
    exact fun hw hf => absurd hf (this hw)
  obtain ⟨htake, hdrop⟩ := takeWhile_digits h.whole ('.' :: (l.fraction ++ rest)) (by simp)
  rw [htext]
  refine scan_eq htake ?_ hn
  rw [hdrop, splitFraction, List.takeWhile_append_of_pos h.fraction,
    List.dropWhile_append_of_pos h.fraction]

/-- A run of digits takes what continues it. -/
theorem scan_append_of_whole {l : Literal} (h : l.WellFormed) (he : l.exponent = none)
    (hp : l.point = []) (hf : l.fraction = []) (rest : List Char) :
    scan Text.isDigit (l.text ++ rest)
      = some (⟨l.whole ++ rest.takeWhile Text.isDigit,
            (splitFraction Text.isDigit (rest.dropWhile Text.isDigit)).1,
            (splitFraction Text.isDigit (rest.dropWhile Text.isDigit)).2.1,
            (scanExponent Text.isDigit
              (splitFraction Text.isDigit (rest.dropWhile Text.isDigit)).2.2).1⟩,
          (scanExponent Text.isDigit
            (splitFraction Text.isDigit (rest.dropWhile Text.isDigit)).2.2).2) := by
  have htext : l.text ++ rest = l.whole ++ rest := by simp [text, hp, hf, he]
  have hw : l.whole ≠ [] := by simpa [hf] using h.nonempty
  have htake : (l.whole ++ rest).takeWhile Text.isDigit = l.whole ++ rest.takeWhile Text.isDigit :=
    List.takeWhile_append_of_pos h.whole
  have hdrop : (l.whole ++ rest).dropWhile Text.isDigit = rest.dropWhile Text.isDigit :=
    List.dropWhile_append_of_pos h.whole
  rw [htext]
  exact scan_eq htake (by rw [hdrop]) (by simp [hw])

/-! ### Exact and longest -/

/-- A literal ends before a character that cannot go on in it. -/
theorem scan_text_append {l : Literal} (h : l.WellFormed) {rest : List Char}
    (hrest : ∀ c, rest.head? = some c →
      Text.isDigit c = false ∧ c ≠ '.' ∧ c ≠ 'e' ∧ c ≠ 'E') :
    scan Text.isDigit (l.text ++ rest) = some (l, rest) := by
  have hnext : rest.takeWhile Text.isDigit = [] ∧ rest.dropWhile Text.isDigit = rest ∧
      scanExponent Text.isDigit rest = (none, rest) := by
    cases rest with
    | nil => exact ⟨rfl, rfl, rfl⟩
    | cons c cs =>
      obtain ⟨hdigit, -, he, hE⟩ := hrest c rfl
      simp [scanExponent, hdigit, he, hE]
  obtain ⟨htake, hdrop, hexponent⟩ := hnext
  have hfraction := splitFraction_eq_self fun c hc => (hrest c hc).2.1
  rcases he : l.exponent with - | e
  · rcases h.point with ⟨hp, hf⟩ | hp
    · rw [scan_append_of_whole h he hp hf, htake, hdrop, hfraction, hexponent]
      obtain ⟨whole, point, fraction, exponent⟩ := l
      simp_all
    · rw [scan_append_of_point h he hp, htake, hdrop, hexponent]
      obtain ⟨whole, point, fraction, exponent⟩ := l
      simp_all
  · rw [scan_append_of_exponent h he, htake, hdrop, Exponent.extended_nil, ← he]

/-- Of a literal alone, the scanner reads exactly its parts. -/
theorem scan_text {l : Literal} (h : l.WellFormed) : scan Text.isDigit l.text = some (l, []) := by
  -- nothing follows, so nothing is taken that is not the literal's
  have hscan : scan Text.isDigit (l.text ++ []) = some (l, []) := scan_text_append h nofun
  rwa [List.append_nil] at hscan

/-- Of a literal and what follows it, the scanner leaves no more than what
follows. -/
theorem scan_append {l : Literal} (h : l.WellFormed) (rest : List Char) :
    ∃ m left, scan Text.isDigit (l.text ++ rest) = some (m, left) ∧ left <:+ rest := by
  have hdrop := List.dropWhile_suffix (l := rest) Text.isDigit
  rcases he : l.exponent with - | e
  · rcases h.point with ⟨hp, hf⟩ | hp
    · refine ⟨_, _, scan_append_of_whole h he hp hf rest, ?_⟩
      exact (scanExponent_suffix _).trans ((splitFraction_suffix _).trans hdrop)
    · exact ⟨_, _, scan_append_of_point h he hp rest, (scanExponent_suffix _).trans hdrop⟩
  · exact ⟨_, _, scan_append_of_exponent h he rest, hdrop⟩

/-- What is scanned has the parts of a literal. -/
theorem wellFormed_of_scan {cs rest : List Char} {l : Literal}
    (h : scan Text.isDigit cs = some (l, rest)) : l.WellFormed := by
  have hn := digits_ne_nil_of_scan h
  simp only [scan] at h
  split at h
  · cases h
  · cases h
    refine ⟨fun c hc => List.mem_takeWhile_imp hc, ?_, ?_, hn,
      fun e he => wellFormed_of_scanExponent he⟩
    · unfold splitFraction
      split <;> simp
    · unfold splitFraction
      split
      · exact fun c hc => List.mem_takeWhile_imp hc
      · simp

theorem scan_eq_none {c : Char} (hd : Text.isDigit c = false) (hp : c ≠ '.') (cs : List Char) :
    scan Text.isDigit (c :: cs) = none := by
  have hsf : splitFraction Text.isDigit (c :: cs) = ([], [], c :: cs) :=
    splitFraction_eq_self (by rintro _ ⟨⟩; exact hp)
  simp only [scan, List.takeWhile_cons, List.dropWhile_cons, hd, hsf, and_self, if_true,
    Bool.false_eq_true, if_false]

/-! ### Literals among the spelled doubles -/

/-- No digit of any script is a blank: the two tables are apart. -/
theorem isBlank_of_isDigit {c : Char} (h : Text.isDigit c) : Text.isBlank c = false := by
  -- a digit is at most nine above the zero of its script
  have apart : ∀ z ∈ Text.zeroDigits, (∀ r ∈ Text.whiteSpaceRanges, z + 9 < r.1 ∨ r.2 < z) ∧
      0x1F < z := by decide
  obtain ⟨d, hd⟩ := Option.isSome_iff_exists.1 h
  obtain ⟨z, hz, -⟩ := Option.map_eq_some_iff.1 hd
  obtain ⟨hranges, hseparators⟩ := apart z (List.mem_of_find?_eq_some hz)
  have hrange := List.find?_some hz
  simp only [Bool.and_eq_true, decide_eq_true_eq] at hrange
  simp only [Text.isBlank, Text.isWhiteSpace, Bool.or_eq_false_iff, List.any_eq_false,
    Bool.and_eq_true, decide_eq_true_eq, not_and, Bool.and_eq_false_imp, decide_eq_false_iff_not]
  refine ⟨fun r hr h1 h2 => ?_, fun _ h2 => ?_⟩
  · have := hranges r hr
    omega
  · omega

theorem isWhiteSpace_of_isDigit {c : Char} (h : Text.isDigit c) : Text.isWhiteSpace c = false := by
  by_contra hw
  have hb := Text.isBlank_of_isWhiteSpace (by simpa using hw)
  rw [isBlank_of_isDigit h] at hb
  cases hb

/-- The characters of a literal. -/
def IsPart (c : Char) : Prop :=
  Text.isDigit c ∨ c ∈ ['.', 'e', 'E', '+', '-']

theorem isPart_of_mem_text {l : Literal} (h : l.WellFormed) {c : Char} (hc : c ∈ l.text) :
    IsPart c := by
  simp only [text, List.mem_append] at hc
  rcases hc with ((hc | hc) | hc) | hc
  · exact .inl (h.whole c hc)
  · rcases h.point with ⟨hp, -⟩ | hp <;> simp_all [IsPart]
  · exact .inl (h.fraction c hc)
  · rcases he : l.exponent with - | e
    · simp [he] at hc
    · have hewf := h.exponent e he
      simp only [he, Option.map_some, Option.getD_some, Exponent.text, List.mem_cons,
        List.mem_append] at hc
      rcases hc with rfl | hc | hc
      · rcases hewf.mark with hm | hm <;> simp [IsPart, hm]
      · rcases hewf.sign with hs | hs | hs <;> simp_all [IsPart]
      · exact .inl (hewf.digits c hc)

/-- A literal starts with a digit or a point. -/
theorem text_eq_cons {l : Literal} (h : l.WellFormed) :
    ∃ c cs, l.text = c :: cs ∧ (Text.isDigit c ∨ c = '.') := by
  rcases hw : l.whole with - | ⟨c, cs⟩
  · rcases h.point with ⟨-, hf⟩ | hp
    · exact absurd (by simp [hw, hf]) h.nonempty
    · exact ⟨'.', _, by simp [text, hw, hp]; rfl, .inr rfl⟩
  · exact ⟨c, _, by simp [text, hw]; rfl, .inl (h.whole c (by simp [hw]))⟩

theorem withoutDividers?_eq_self {cs : List Char} (h : '_' ∉ cs) (before : Bool) :
    Spelled.withoutDividers? before cs = some cs := by
  induction cs generalizing before with
  | nil => rfl
  | cons c cs ih =>
    simp only [List.mem_cons, not_or] at h
    rw [Spelled.withoutDividers?.eq_3 _ _ _ (fun hc => h.1 hc.symm), ih h.2]
    rfl

/-- The small letter of a character that is no letter is the character. -/
theorem toLower_of_isDigit {c : Char} (h : Text.isDigit c ∨ c = '.') : c.toLower = c := by
  have hcap : ∀ n : Fin 26, Text.isDigit (Char.ofNat (65 + n)) = false := by decide
  unfold Char.toLower
  split
  · next hc =>
    exfalso
    have h1 : 65 ≤ c.toNat := hc.1
    have h2 : c.toNat ≤ 90 := hc.2
    have hcn : Char.ofNat (65 + (⟨c.toNat - 65, by omega⟩ : Fin 26).1) = c := by
      rw [Nat.add_sub_cancel' h1, Char.ofNat_toNat]
    rcases h with h | rfl
    · have := hcap ⟨c.toNat - 65, by omega⟩
      rw [hcn] at this
      simp [this] at h
    · exact absurd h1 (by decide)
  · rfl

theorem isWhiteSpace_of_isPart {c : Char} (h : IsPart c) : Text.isWhiteSpace c = false := by
  rcases h with hdigit | hc
  · exact isWhiteSpace_of_isDigit hdigit
  · simp only [List.mem_cons, List.not_mem_nil, or_false] at hc
    rcases hc with rfl | rfl | rfl | rfl | rfl <;> decide

/-- No sign stands in front of a literal. -/
theorem splitSign_text {l : Literal} (h : l.WellFormed) : splitSign l.text = ([], l.text) := by
  obtain ⟨c, cs, hcs, hc⟩ := text_eq_cons h
  refine splitSign_eq_self fun d hd => ?_
  rw [hcs] at hd
  cases hd
  constructor <;> rintro rfl <;> revert hc <;> decide

/-- A literal is none of the words, which all start with a letter. -/
theorem isWord_text {l : Literal} (h : l.WellFormed) :
    Spelled.isInfinityWord l.text = false ∧ Spelled.isNanWord l.text = false := by
  obtain ⟨c, cs, hcs, hc⟩ := text_eq_cons h
  have hfirst : ∀ w : List Char, l.text.map Char.toLower = w → w.head? = some c := by
    rintro _ rfl
    rw [hcs, List.map_cons, toLower_of_isDigit hc, List.head?_cons]
  have hletter : ∀ d : Char, d ∈ ['i', 'n'] → some d ≠ some c := by
    rintro d hd ⟨⟩
    simp only [List.mem_cons, List.not_mem_nil, or_false] at hd
    rcases hd with rfl | rfl <;> revert hc <;> decide
  simp only [Spelled.isInfinityWord, Spelled.isNanWord, Bool.or_eq_false_iff,
    decide_eq_false_iff_not]
  exact ⟨⟨fun hw => hletter 'i' (by simp) (hfirst _ hw),
    fun hw => hletter 'i' (by simp) (hfirst _ hw)⟩, fun hw => hletter 'n' (by simp) (hfirst _ hw)⟩

/-- The reader of spelled doubles takes every literal, at its value. -/
theorem real?_text {l : Literal} (h : l.WellFormed) :
    Spelled.real? (String.ofList l.text) = some l.toReal := by
  have hpart : ∀ d ∈ l.text, IsPart d := fun d hd => isPart_of_mem_text h hd
  have hblank : ∀ d ∈ l.text, Text.isWhiteSpace d = false :=
    fun d hd => isWhiteSpace_of_isPart (hpart d hd)
  have hdivider : '_' ∉ l.text := by
    intro hd
    rcases hpart '_' hd with h | h
    · exact absurd h (by decide)
    · exact absurd h (by decide)
  obtain ⟨hinfinity, hnan⟩ := isWord_text h
  -- so trimming, signs, words and dividers leave the text to the scanner
  simp [Spelled.real?, Text.trimBy_eq_self hblank, splitSign_text h, hinfinity, hnan,
    withoutDividers?_eq_self hdivider, plainReal?, scan_text h]

/-! ### Plain numbers -/

/-- At most one sign. -/
def IsSign (sign : List Char) : Prop :=
  sign = [] ∨ sign = ['+'] ∨ sign = ['-']

/-- The value of a literal behind a sign. -/
def signed (sign : List Char) (l : Literal) : Float :=
  if sign = ['-'] then -l.toReal else l.toReal

theorem isSign_splitSign (cs : List Char) : IsSign (splitSign cs).1 := by
  unfold splitSign
  split
  · exact .inr (.inl rfl)
  · exact .inr (.inr rfl)
  · exact .inl rfl

theorem splitSign_sign {sign : List Char} (hsign : IsSign sign) {l : Literal} (hl : l.WellFormed) :
    splitSign (sign ++ l.text) = (sign, l.text) := by
  rcases hsign with rfl | rfl | rfl
  · exact splitSign_text hl
  · rfl
  · rfl

/-- A plain number is at most one sign and a literal. -/
theorem plainReal?_eq_some_iff {cs : List Char} {x : Float} :
    plainReal? cs = some x ↔
      ∃ sign l, IsSign sign ∧ l.WellFormed ∧ cs = sign ++ l.text ∧ x = signed sign l := by
  unfold plainReal?
  dsimp only
  constructor
  · intro h
    split at h
    · next l hscan =>
      cases h
      have htext := text_append_of_scan hscan
      rw [List.append_nil] at htext
      exact ⟨_, l, isSign_splitSign cs, wellFormed_of_scan hscan,
        by rw [htext, append_splitSign], rfl⟩
    · cases h
  · rintro ⟨sign, l, hsign, hl, rfl, rfl⟩
    rw [splitSign_sign hsign hl]
    dsimp only
    rw [scan_text hl]
    rfl

theorem isPart_of_mem_signed {sign : List Char} (hsign : IsSign sign) {l : Literal}
    (hl : l.WellFormed) {c : Char} (hc : c ∈ sign ++ l.text) : IsPart c := by
  rcases List.mem_append.1 hc with hc | hc
  · rcases hsign with rfl | rfl | rfl
    · cases hc
    · rw [List.mem_singleton.1 hc]
      exact .inr (by decide)
    · rw [List.mem_singleton.1 hc]
      exact .inr (by decide)
  · exact isPart_of_mem_text hl hc

end Gridbook.Literal
