/-
Gridbook/Proofs/Formula/Cut.lean

Texts cut into tokens, apart from the scanner that cuts them.  A token is well
formed when its characters are those that its kind allows; `IsLongest t cs` says
that `t` starts `cs` and that no longer token does; `Cut cs ts` says that the
text `cs` is the tokens `ts`, each the longest one at its place, with blanks
between them.

Main statements: the scanner's next token is the longest one (`next?_eq_some_iff`),
and it stops where no token starts (`next?_eq_none_iff`); the scanner's tokens
are the ones that a text is cut into (`cut_iff`), of which there is one list at
most.
-/
import Gridbook.Formula.Token
import Gridbook.Proofs.Number.Literal
import Gridbook.Proofs.Outcome

namespace Gridbook.Formula

/-! ### Well-formed tokens -/

/-- The characters of a token are those that its kind allows. -/
def Token.WellFormed : Token → Prop
  | .number l => l.WellFormed
  | .name cs => ∃ c rest, cs = c :: rest ∧ isNameStart c ∧ ∀ d ∈ rest, isNamePart d
  | _ => True

/-- The token starts the text, and no longer token does. -/
structure Token.IsLongest (t : Token) (cs : List Char) : Prop where
  wellFormed : t.WellFormed
  starts : t.text <+: cs
  longest : ∀ u : Token, u.WellFormed → u.text <+: cs → u.text.length ≤ t.text.length

theorem lt_of_isNameStart {c : Char} (h : isNameStart c) : c.toNat < 128 := by
  have hletter : c.isAlpha = true ∨ (c == '_') = true := Bool.or_eq_true_iff.1 h
  rcases hletter with hletter | hunderscore
  · have hcase : c.isUpper = true ∨ c.isLower = true := Bool.or_eq_true_iff.1 hletter
    rcases hcase with hupper | hlower
    · have hle : c.toNat ≤ 90 := (of_decide_eq_true hupper).2
      omega
    · have hle : c.toNat ≤ 122 := of_decide_eq_true (Bool.and_eq_true_iff.1 hlower).2
      omega
  · rw [beq_iff_eq.1 hunderscore]
    decide

/-- No letter of ASCII is a digit or a blank, and neither is the underscore. -/
theorem isDigit_isBlank_of_isNameStart {c : Char} (h : isNameStart c) :
    Text.isDigit c = false ∧ Text.isBlank c = false := by
  have hletter : ∀ n : Fin 128, isNameStart (Char.ofNat n) →
      Text.isDigit (Char.ofNat n) = false ∧ Text.isBlank (Char.ofNat n) = false := by
    decide
  have := hletter ⟨c.toNat, lt_of_isNameStart h⟩
  rw [Char.ofNat_toNat] at this
  exact this h

theorem scan_of_isNameStart {c : Char} (h : isNameStart c) (cs : List Char) :
    Literal.scan Text.isDigit (c :: cs) = none := by
  refine Literal.scan_eq_none (isDigit_isBlank_of_isNameStart h).1 ?_ cs
  rintro rfl
  exact absurd h (by decide)

/-- A character that stands alone is read alone. -/
theorem next?_symbol {c : Char} {t : Token} (h : symbol? c = some t) (rest : List Char) :
    next? (c :: rest) = some (t, rest) := by
  have hscan : Literal.scan Text.isDigit (c :: rest) = none := by
    refine Literal.scan_eq_none ?_ ?_ rest <;> unfold symbol? at h <;> split at h <;>
      first | decide | cases h
  have hname : isNameStart c = false := by
    unfold symbol? at h
    split at h <;> first | rfl | cases h
  simp only [next?, hscan, hname, h, Option.map_some, Bool.false_eq_true, if_false]

/-- A name takes what continues it. -/
theorem next?_name {c : Char} (h : isNameStart c) (cs : List Char) :
    next? (c :: cs) = some (.name (c :: cs.takeWhile isNamePart), cs.dropWhile isNamePart) := by
  simp only [next?, scan_of_isNameStart h, h, if_true]

/-- A token is a literal, a name, or a character that stands alone. -/
theorem Token.WellFormed.cases {t : Token} (h : t.WellFormed) :
    (∃ l : Literal, t = .number l ∧ l.WellFormed) ∨
    (∃ c cs, t = .name (c :: cs) ∧ isNameStart c ∧ ∀ d ∈ cs, isNamePart d) ∨
    ∃ c, symbol? c = some t := by
  cases t with
  | number l => exact .inl ⟨l, rfl, h⟩
  | name cs =>
    obtain ⟨c, ds, rfl, hc, hds⟩ := h
    exact .inr (.inl ⟨c, ds, rfl, hc, hds⟩)
  | operator op => exact .inr (.inr ⟨op.sign, by cases op <;> rfl⟩)
  | opening => exact .inr (.inr ⟨'(', rfl⟩)
  | closing => exact .inr (.inr ⟨')', rfl⟩)

/-- Of a token and what follows it, the scanner leaves no more than what
follows. -/
theorem next?_append {t : Token} (h : t.WellFormed) (rest : List Char) :
    ∃ u left, next? (t.text ++ rest) = some (u, left) ∧ left <:+ rest := by
  obtain ⟨l, rfl, hl⟩ | ⟨c, cs, rfl, hc, hcs⟩ | ⟨c, hc⟩ := h.cases
  · -- the literal that is scanned may go on into `rest`, but leaves an end of it
    obtain ⟨m, left, hscan, hleft⟩ := Literal.scan_append hl rest
    exact ⟨.number m, left, by simp only [next?, Token.text, hscan], hleft⟩
  · refine ⟨_, _, next?_name hc (cs ++ rest), ?_⟩
    rw [List.dropWhile_append_of_pos hcs]
    exact List.dropWhile_suffix _
  · rw [text_of_symbol? hc]
    exact ⟨t, rest, next?_symbol hc rest, List.suffix_refl _⟩

/-- Of a token alone, the scanner reads exactly that token. -/
theorem next?_text {t : Token} (h : t.WellFormed) : next? t.text = some (t, []) := by
  obtain ⟨l, rfl, hl⟩ | ⟨c, cs, rfl, hc, hcs⟩ | ⟨c, hc⟩ := h.cases
  · simp only [next?, Token.text, Literal.scan_text hl]
  · rw [Token.text, next?_name hc, List.takeWhile_eq_self_iff.2 hcs,
      List.dropWhile_eq_nil_iff.2 hcs]
  · rw [text_of_symbol? hc]
    exact next?_symbol hc []

/-- Well-formed tokens with the same characters are the same token. -/
theorem eq_of_text_eq {t u : Token} (ht : t.WellFormed) (hu : u.WellFormed)
    (h : t.text = u.text) : t = u := by
  have := (next?_text ht).symm.trans (h ▸ next?_text hu)
  simpa using this

/-- What the scanner reads is well formed. -/
theorem wellFormed_of_next? {cs rest : List Char} {t : Token} (h : next? cs = some (t, rest)) :
    t.WellFormed := by
  unfold next? at h
  split at h
  · next hs =>
    cases h
    exact Literal.wellFormed_of_scan hs
  · cases cs with
    | nil => cases h
    | cons c cs =>
      simp only at h
      split at h
      · next hc =>
        cases h
        exact ⟨c, _, rfl, hc, fun d hd => List.mem_takeWhile_imp hd⟩
      · obtain ⟨u, hu, he⟩ := Option.map_eq_some_iff.1 h
        cases he
        unfold symbol? at hu
        split at hu <;> cases hu <;> trivial

/-! ### The scanner's next token -/

/-- The scanner's next token is at least as long as any token that starts the
text. -/
theorem length_le_of_next? {cs rest : List Char} {t u : Token} (h : next? cs = some (t, rest))
    (hu : u.WellFormed) (hstarts : u.text <+: cs) : u.text.length ≤ t.text.length := by
  obtain ⟨more, rfl⟩ := hstarts
  obtain ⟨v, left, hnext, hleft⟩ := next?_append hu more
  -- what is left is no longer than what follows `u`, so what was read is no shorter
  obtain ⟨rfl, rfl⟩ : t = v ∧ rest = left := by simpa using h.symm.trans hnext
  have hlen := congrArg List.length (text_append_of_next? h)
  have := hleft.length_le
  simp only [List.length_append] at hlen
  omega

/-- The scanner reads the longest token that starts the text, and leaves what
follows it. -/
theorem next?_eq_some_iff {cs rest : List Char} {t : Token} :
    next? cs = some (t, rest) ↔ t.IsLongest cs ∧ cs = t.text ++ rest := by
  constructor
  · intro h
    have happ := text_append_of_next? h
    exact ⟨⟨wellFormed_of_next? h, ⟨rest, happ⟩, fun u hu hs => length_le_of_next? h hu hs⟩,
      happ.symm⟩
  · rintro ⟨hlongest, rfl⟩
    obtain ⟨u, left, hnext, -⟩ := next?_append hlongest.wellFormed rest
    have hwf := wellFormed_of_next? hnext
    have happ := text_append_of_next? hnext
    -- neither of the two is longer, so both have the same characters
    have hle := hlongest.longest u hwf ⟨left, happ⟩
    have hge := length_le_of_next? hnext hlongest.wellFormed (List.prefix_append ..)
    obtain ⟨htext, hleft⟩ := List.append_inj happ (by omega)
    rw [hnext, eq_of_text_eq hwf hlongest.wellFormed htext, hleft]

/-- The scanner stops where no token starts. -/
theorem next?_eq_none_iff {cs : List Char} :
    next? cs = none ↔ ∀ t : Token, t.WellFormed → ¬ t.text <+: cs := by
  constructor
  · rintro h t ht ⟨rest, rfl⟩
    obtain ⟨u, left, hnext, -⟩ := next?_append ht rest
    rw [h] at hnext
    cases hnext
  · intro h
    rcases hn : next? cs with - | ⟨t, rest⟩
    · rfl
    · exact absurd ⟨rest, text_append_of_next? hn⟩ (h t (wellFormed_of_next? hn))

/-! ### Whole texts -/

/-- The text is these tokens, each the longest one at its place, with blanks
between them. -/
inductive Cut : List Char → List Token → Prop
  | nil : Cut [] []
  | blank {c cs ts} : Text.isBlank c → Cut cs ts → Cut (c :: cs) ts
  | token {t rest ts} : t.IsLongest (t.text ++ rest) → Cut rest ts →
      Cut (t.text ++ rest) (t :: ts)

/-- No token starts with a blank. -/
theorem isBlank_of_starts {t : Token} (h : t.WellFormed) {c : Char} {cs : List Char}
    (hstarts : t.text <+: c :: cs) : Text.isBlank c = false := by
  obtain ⟨l, rfl, hl⟩ | ⟨d, ds, rfl, hd, -⟩ | ⟨d, hd⟩ := h.cases
  · obtain ⟨d, ds, htext, hd⟩ := Literal.text_eq_cons hl
    rw [Token.text, htext, List.cons_prefix_cons] at hstarts
    obtain ⟨rfl, -⟩ := hstarts
    rcases hd with hd | rfl
    · exact Literal.isBlank_of_isDigit hd
    · decide
  · rw [Token.text, List.cons_prefix_cons] at hstarts
    obtain ⟨rfl, -⟩ := hstarts
    exact (isDigit_isBlank_of_isNameStart hd).2
  · rw [text_of_symbol? hd, List.cons_prefix_cons] at hstarts
    obtain ⟨rfl, -⟩ := hstarts
    unfold symbol? at hd
    split at hd <;> first | decide | cases hd

/-- The scanner's tokens from a place on, without the recursion's measure. -/
theorem lexFrom_eq (place : Nat) (cs : List Char) :
    lexFrom place cs =
      match next? (cs.dropWhile Text.isBlank) with
      | some (t, rest) =>
        (lexFrom (place + (cs.takeWhile Text.isBlank).length + t.text.length) rest).map
          (⟨t, place + (cs.takeWhile Text.isBlank).length⟩ :: ·)
      | none =>
        match cs.dropWhile Text.isBlank with
        | [] => .ok []
        | c :: _ => .error (.badCharacter c (place + (cs.takeWhile Text.isBlank).length)) := by
  rw [lexFrom]
  split
  · next h => simp only [h]
  · next h =>
    -- the match of the definition keeps the equation that it is on
    generalize next? (cs.dropWhile Text.isBlank) = found at h ⊢
    subst h
    rfl

theorem lexFrom_nil (place : Nat) : lexFrom place [] = .ok [] := by
  rw [lexFrom_eq]
  rfl

/-- A blank only moves the place. -/
theorem lexFrom_blank {c : Char} (h : Text.isBlank c) (place : Nat) (cs : List Char) :
    lexFrom place (c :: cs) = lexFrom (place + 1) cs := by
  rw [lexFrom_eq, lexFrom_eq]
  simp only [List.dropWhile_cons, List.takeWhile_cons, h, if_true, List.length_cons,
    Nat.add_assoc, Nat.add_comm 1]

/-- The longest token comes first. -/
theorem lexFrom_token {t : Token} {rest : List Char} (h : t.IsLongest (t.text ++ rest))
    (place : Nat) :
    lexFrom place (t.text ++ rest)
      = (lexFrom (place + t.text.length) rest).map (⟨t, place⟩ :: ·) := by
  have hnext := next?_eq_some_iff.2 ⟨h, rfl⟩
  have hblank : (t.text ++ rest).dropWhile Text.isBlank = t.text ++ rest
      ∧ (t.text ++ rest).takeWhile Text.isBlank = [] := by
    rcases hcs : t.text ++ rest with - | ⟨c, cs⟩
    · exact ⟨rfl, rfl⟩
    · have := isBlank_of_starts h.wellFormed (hcs ▸ List.prefix_append t.text rest)
      simp [this]
  rw [lexFrom_eq, hblank.1, hblank.2, hnext]
  rfl

/-- A text that is cut into tokens gives these tokens. -/
theorem lexFrom_of_cut {cs : List Char} {ts : List Token} (h : Cut cs ts) (place : Nat) :
    ∃ ps, lexFrom place cs = .ok ps ∧ ps.map Placed.token = ts := by
  induction h generalizing place with
  | nil => exact ⟨[], lexFrom_nil place, rfl⟩
  | blank hc _ ih =>
    obtain ⟨ps, hps, hts⟩ := ih (place + 1)
    exact ⟨ps, (lexFrom_blank hc place _).trans hps, hts⟩
  | @token t rest ts ht _ ih =>
    obtain ⟨ps, hps, hts⟩ := ih (place + t.text.length)
    refine ⟨⟨t, place⟩ :: ps, ?_, by rw [List.map_cons, hts]⟩
    rw [lexFrom_token ht, hps]
    rfl

/-- Blanks in front belong to every cut. -/
theorem Cut.blanks {bs cs : List Char} {ts : List Token} (hb : ∀ c ∈ bs, Text.isBlank c)
    (h : Cut cs ts) : Cut (bs ++ cs) ts := by
  induction bs with
  | nil => exact h
  | cons b bs ih =>
    exact .blank (hb b (by simp)) (ih fun c hc => hb c (by simp [hc]))

/-- A text of blanks has no tokens. -/
theorem cut_of_blanks {cs : List Char} (h : ∀ c ∈ cs, Text.isBlank c) : Cut cs [] := by
  rw [← List.append_nil cs]
  exact Cut.blanks h .nil

/-- The tokens that the scanner gives are a cut of the text. -/
theorem cut_of_lexFrom {place : Nat} {cs : List Char} {ps : List Placed}
    (h : lexFrom place cs = .ok ps) : Cut cs (ps.map Placed.token) := by
  induction place, cs using lexFrom.induct generalizing ps with
  | case1 place cs start t rest hnext _ =>
    rename_i ih
    rw [lexFrom_eq, hnext] at h
    obtain ⟨qs, hqs, rfl⟩ := Outcome.map_eq_ok.1 h
    obtain ⟨hlongest, hcs⟩ := next?_eq_some_iff.1 hnext
    rw [hcs] at hlongest
    -- the text is its blanks in front, the token, and what the rest is cut into
    rw [← List.takeWhile_append_dropWhile (p := Text.isBlank) (l := cs), hcs]
    exact Cut.blanks (fun c hc => List.mem_takeWhile_imp hc) (.token hlongest (ih hqs))
  | case2 place cs hnext hcs =>
    rw [lexFrom_eq, hnext, hcs] at h
    cases h
    exact cut_of_blanks (List.dropWhile_eq_nil_iff.1 hcs)
  | case3 place cs hnext c rest hcs =>
    rw [lexFrom_eq, hnext, hcs] at h
    cases h

/-- The scanner's tokens are those that the text is cut into. -/
theorem cut_iff {place : Nat} {cs : List Char} {ts : List Token} :
    Cut cs ts ↔ ∃ ps, lexFrom place cs = .ok ps ∧ ps.map Placed.token = ts := by
  constructor
  · exact fun h => lexFrom_of_cut h place
  · rintro ⟨ps, hps, rfl⟩
    exact cut_of_lexFrom hps

/-- A text is cut into one list of tokens at most. -/
theorem Cut.unique {cs : List Char} {ts us : List Token} (ht : Cut cs ts) (hu : Cut cs us) :
    ts = us := by
  obtain ⟨ps, hps, rfl⟩ := lexFrom_of_cut ht 0
  obtain ⟨qs, hqs, rfl⟩ := lexFrom_of_cut hu 0
  rw [hps] at hqs
  cases hqs
  rfl

/-- The characters of a cut's tokens are those that their kinds allow. -/
theorem Cut.wellFormed {cs : List Char} {ts : List Token} (h : Cut cs ts) :
    ∀ t ∈ ts, t.WellFormed := by
  induction h with
  | nil => simp
  | blank _ _ ih => exact ih
  | token ht _ ih =>
    rintro u (_ | ⟨_, hu⟩)
    · exact ht.wellFormed
    · exact ih u hu

end Gridbook.Formula
