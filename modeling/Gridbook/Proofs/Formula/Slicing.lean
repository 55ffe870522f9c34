/-
Gridbook/Proofs/Formula/Slicing.lean

The tokens of a text as slices of it.  `Slices cs first last ps` says of tokens with
places, without a scanner, that they are what stands in the text from `first` to
`last`: one behind the other, each the longest one at its place in the whole text,
and nothing but blanks beside them.

The scanner goes along the text in steps (`Step`): over one blank, or over the
longest token.  A step ends behind its place and within the text (`Step.advances`),
what is left to scan is the scan from there (`Step.lexFrom_eq`), and slices grow by
what it has stepped over (`Step.slices`).  A scan makes such steps up to the end of
the text or to a place where it is stuck (`exists_slices`), and slices can be told
back from the steps (`lexFrom_of_slices`).  So a text is either sliced up to its end or
stuck behind slices, and its scan tells which (`lex_eq_ok_iff`, `lex_eq_error_iff`).

Main statement: the tokens of a text are its slices, and where there are none, the
scan is stuck at the first place outside the slices that is no blank (`lex_slices`).
-/
import Gridbook.Proofs.Formula.Cut

namespace Gridbook.Formula

variable {cs : List Char} {i j first last : Nat} {c : Char} {t : Token} {ps qs : List Placed}

/-- The place behind the token. -/
def Placed.stop (p : Placed) : Nat :=
  p.place + p.token.text.length

/-- Is this place one of the token's? -/
def Placed.Covers (p : Placed) (i : Nat) : Prop :=
  p.place ≤ i ∧ i < p.stop

/-- Are the tokens what stands in the text between two places?  Each is the longest
one at its place in the whole text. -/
structure Slices (cs : List Char) (first last : Nat) (ps : List Placed) : Prop where
  within : ∀ p ∈ ps, first ≤ p.place ∧ p.stop ≤ last
  apart : ps.Pairwise fun p q => p.stop ≤ q.place
  longest : ∀ p ∈ ps, p.token.IsLongest (cs.drop p.place)
  blanks : ∀ i c, first ≤ i → i < last → cs[i]? = some c → (∀ p ∈ ps, ¬ p.Covers i) →
    Text.isBlank c

/-- Is this a character at which neither a token starts nor a blank stands? -/
structure Stuck (cs : List Char) (c : Char) (i : Nat) : Prop where
  char : cs[i]? = some c
  notBlank : Text.isBlank c = false
  noToken : ∀ t : Token, t.WellFormed → ¬ t.text <+: cs.drop i

/-! ### Tokens at a place -/

theorem length_text_pos (h : t.WellFormed) : 0 < t.text.length := by
  have hne := text_ne_nil_of_next? (next?_text h)
  exact List.length_pos_iff.2 hne

/-- A token at a place ends behind the place and within the text. -/
theorem Token.IsLongest.stop_le (h : t.IsLongest (cs.drop i)) :
    i < i + t.text.length ∧ i + t.text.length ≤ cs.length := by
  have hpos := length_text_pos h.wellFormed
  have hle := h.starts.length_le
  rw [List.length_drop] at hle
  omega

/-- A token at a place is the slice of the text there, and the rest follows it. -/
theorem Token.IsLongest.drop_eq (h : t.IsLongest (cs.drop i)) :
    cs.drop i = t.text ++ cs.drop (i + t.text.length) := by
  obtain ⟨rest, hrest⟩ := h.starts
  rw [← List.drop_drop, ← hrest, List.drop_left]

/-- What follows the longest token makes no token with it. -/
theorem Token.IsLongest.not_extended (h : t.IsLongest (cs.drop i))
    (hc : cs[i + t.text.length]? = some c) {u : Token} (hu : u.WellFormed) :
    u.text ≠ t.text ++ [c] := by
  intro htext
  have hrest : [c] <+: cs.drop (i + t.text.length) := by
    obtain ⟨hlt, hget⟩ := List.getElem?_eq_some_iff.1 hc
    rw [List.drop_eq_getElem_cons hlt, hget]
    exact ⟨_, rfl⟩
  have hstarts : u.text <+: cs.drop i := by
    rw [htext, h.drop_eq]
    exact (List.prefix_append_right_inj t.text).2 hrest
  have hle := h.longest u hu hstarts
  rw [htext, List.length_append, List.length_singleton] at hle
  omega

/-! ### Steps of a scan -/

/-- One step of a scan, and the token that it passes if it is one. -/
inductive Step (cs : List Char) (i : Nat) : Nat → List Placed → Prop
  | blank {c : Char} : cs[i]? = some c → Text.isBlank c → Step cs i (i + 1) []
  | token {t : Token} : t.IsLongest (cs.drop i) → Step cs i (i + t.text.length) [⟨t, i⟩]

theorem Step.advances (h : Step cs i j ps) : i < j ∧ j ≤ cs.length := by
  cases h with
  | blank hc _ =>
    obtain ⟨hlt, -⟩ := List.getElem?_eq_some_iff.1 hc
    exact ⟨Nat.lt_succ_self i, hlt⟩
  | token h => exact h.stop_le

/-- A scan is a step and the scan from behind it. -/
theorem Step.lexFrom_eq (h : Step cs i j ps) :
    lexFrom i (cs.drop i) = (lexFrom j (cs.drop j)).map (ps ++ ·) := by
  cases h with
  | @blank c hc hblank =>
    obtain ⟨hlt, hget⟩ := List.getElem?_eq_some_iff.1 hc
    rw [List.drop_eq_getElem_cons hlt, hget, lexFrom_blank hblank]
    cases lexFrom (i + 1) (cs.drop (i + 1)) with
    | ok qs => rfl
    | error e => rfl
  | @token t h =>
    have hlongest := h
    rw [h.drop_eq] at hlongest
    rw [h.drop_eq, lexFrom_token hlongest]
    rfl

/-- Slices grow by what a step in front of them passes. -/
theorem Step.slices (h : Step cs i j ps) (hqs : Slices cs j last qs) (hlast : j ≤ last) :
    Slices cs i last (ps ++ qs) := by
  cases h with
  | @blank c hc hblank =>
    refine ⟨fun p hp => ?_, hqs.apart, hqs.longest, fun k d hik hk hd hout => ?_⟩
    · have hp := hqs.within p hp
      omega
    · rcases Nat.eq_or_lt_of_le hik with rfl | hik
      · cases hc.symm.trans hd
        exact hblank
      · exact hqs.blanks k d hik hk hd hout
  | @token t h =>
    have hend := h.stop_le
    refine ⟨?_, ?_, ?_, fun k d hik hk hd hout => ?_⟩
    · refine List.forall_mem_cons.2 ⟨⟨Nat.le_refl i, hlast⟩, fun q hq => ?_⟩
      have hq := hqs.within q hq
      omega
    · exact List.pairwise_cons.2 ⟨fun q hq => (hqs.within q hq).1, hqs.apart⟩
    · exact List.forall_mem_cons.2 ⟨h, hqs.longest⟩
    · -- a place that the token does not cover is behind it
      obtain ⟨hfirst, hrest⟩ := List.forall_mem_cons.1 hout
      have hbehind : i + t.text.length ≤ k := Nat.not_lt.1 fun hlt => hfirst ⟨hik, hlt⟩
      exact hqs.blanks k d hbehind hk hd hrest

/-! ### Slices told by steps -/

/-- Between two places are no slices if there is no character. -/
theorem Slices.eq_nil (h : Slices cs i i ps) : ps = [] := by
  refine List.eq_nil_iff_forall_not_mem.2 fun p hp => ?_
  have hwithin := h.within p hp
  have hpos := length_text_pos (h.longest p hp).wellFormed
  rw [Placed.stop] at hwithin
  omega

/-- A first place that no slice covers has a blank. -/
theorem Slices.step_of_not_covers (h : Slices cs i last ps) (hi : i < last)
    (hlast : last ≤ cs.length) (hout : ∀ p ∈ ps, ¬ p.Covers i) :
    Step cs i (i + 1) [] ∧ Slices cs (i + 1) last ps := by
  have hc : cs[i]? = some cs[i] := List.getElem?_eq_getElem (Nat.lt_of_lt_of_le hi hlast)
  refine ⟨.blank hc (h.blanks i _ (Nat.le_refl i) hi hc hout), fun p hp => ⟨?_, ?_⟩, h.apart,
    h.longest, fun k d hik => h.blanks k d (Nat.le_of_succ_le hik)⟩
  · have hne : p.place ≠ i := by
      rintro rfl
      exact hout p hp ⟨Nat.le_refl _, (h.longest p hp).stop_le.1⟩
    exact Nat.lt_of_le_of_ne (h.within p hp).1 hne.symm
  · exact (h.within p hp).2

/-- Slices start with a step. -/
theorem Slices.exists_step (h : Slices cs i last ps) (hi : i < last) (hlast : last ≤ cs.length) :
    ∃ j front rest, Step cs i j front ∧ j ≤ last ∧ ps = front ++ rest ∧ Slices cs j last rest := by
  cases ps with
  | nil =>
    obtain ⟨hstep, hrest⟩ := h.step_of_not_covers hi hlast nofun
    exact ⟨i + 1, [], [], hstep, hi, rfl, hrest⟩
  | cons p ps =>
    obtain ⟨happart, hrest⟩ := List.pairwise_cons.1 h.apart
    have hwithin := h.within p List.mem_cons_self
    have hlongest := h.longest p List.mem_cons_self
    rcases Nat.eq_or_lt_of_le hwithin.1 with rfl | hlt
    · -- the first token stands here
      refine ⟨p.stop, [p], ps, .token hlongest, hwithin.2, rfl, fun q hq => ?_, hrest, ?_, ?_⟩
      · exact ⟨happart q hq, (h.within q (List.mem_cons_of_mem p hq)).2⟩
      · exact fun q hq => h.longest q (List.mem_cons_of_mem p hq)
      · intro k d hk hlast hd hout
        refine h.blanks k d ?_ hlast hd (List.forall_mem_cons.2 ⟨fun hp => ?_, hout⟩)
        · exact Nat.le_trans hlongest.stop_le.1.le hk
        · exact Nat.not_lt.2 hk hp.2
    · -- it stands behind this place, and so do all others
      have hout : ∀ q ∈ p :: ps, ¬ q.Covers i := by
        refine List.forall_mem_cons.2 ⟨fun hp => ?_, fun q hq hcovers => ?_⟩
        · exact Nat.not_le.2 hlt hp.1
        · have hbehind := happart q hq
          have hpos := hlongest.stop_le.1
          have hcovers := hcovers.1
          rw [Placed.stop] at hbehind
          omega
      obtain ⟨hstep, hrest⟩ := h.step_of_not_covers hi hlast hout
      exact ⟨i + 1, [], p :: ps, hstep, hi, rfl, hrest⟩

/-- A scan is the slices in front and the scan of what is behind them. -/
theorem lexFrom_of_slices (h : Slices cs i last ps) (hi : i ≤ last) (hlast : last ≤ cs.length) :
    lexFrom i (cs.drop i) = (lexFrom last (cs.drop last)).map (ps ++ ·) := by
  -- by what is left of the text up to the last place
  induction hn : last - i using Nat.strongRecOn generalizing i ps with
  | ind n ih =>
    rcases Nat.eq_or_lt_of_le hi with rfl | hlt
    · rw [h.eq_nil]
      cases lexFrom i (cs.drop i) with
      | ok qs => rfl
      | error e => rfl
    · obtain ⟨j, front, rest, hstep, hj, rfl, hrest⟩ := h.exists_step hlt hlast
      have hadvances := hstep.advances.1
      rw [hstep.lexFrom_eq, ih (last - j) (by omega) hrest hj rfl]
      cases lexFrom last (cs.drop last) with
      | ok qs => exact congrArg Except.ok (List.append_assoc _ _ _).symm
      | error e => rfl

/-! ### Where a scan ends -/

/-- At each place of a text a scan makes a step or is stuck. -/
theorem exists_step_or_stuck (hi : i < cs.length) :
    (∃ j ps, Step cs i j ps) ∨ Stuck cs cs[i] i := by
  have hc : cs[i]? = some cs[i] := List.getElem?_eq_getElem hi
  cases hblank : Text.isBlank cs[i] with
  | true => exact .inl ⟨_, _, .blank hc hblank⟩
  | false =>
    rcases hnext : next? (cs.drop i) with - | ⟨t, rest⟩
    · exact .inr ⟨hc, hblank, next?_eq_none_iff.1 hnext⟩
    · exact .inl ⟨_, _, .token (next?_eq_some_iff.1 hnext).1⟩

/-- A scan that is stuck fails there. -/
theorem lexFrom_of_stuck (h : Stuck cs c i) :
    lexFrom i (cs.drop i) = .error (.badCharacter c i) := by
  obtain ⟨hi, hget⟩ := List.getElem?_eq_some_iff.1 h.char
  have hdrop : cs.drop i = c :: cs.drop (i + 1) := by
    rw [List.drop_eq_getElem_cons hi, hget]
  have hnext : next? (c :: cs.drop (i + 1)) = none := by
    rw [← hdrop]
    exact next?_eq_none_iff.2 h.noToken
  rw [hdrop, lexFrom_eq, List.dropWhile_cons, List.takeWhile_cons, h.notBlank]
  simp only [Bool.false_eq_true, if_false, hnext, List.length_nil, Nat.add_zero]

/-- A scan goes on to the end of the text or to a place where it is stuck. -/
theorem exists_slices (hi : i ≤ cs.length) :
    ∃ last ps, i ≤ last ∧ last ≤ cs.length ∧ Slices cs i last ps ∧
      (last = cs.length ∨ ∃ c, Stuck cs c last) := by
  have hnone : ∀ k, Slices cs k k [] := fun k =>
    ⟨nofun, .nil, nofun, fun l d hl hk => absurd hl (Nat.not_le.2 hk)⟩
  induction hn : cs.length - i using Nat.strongRecOn generalizing i with
  | ind n ih =>
    rcases Nat.eq_or_lt_of_le hi with rfl | hlt
    · exact ⟨_, [], Nat.le_refl _, Nat.le_refl _, hnone _, .inl rfl⟩
    · rcases exists_step_or_stuck hlt with ⟨j, front, hstep⟩ | hstuck
      · obtain ⟨hij, hj⟩ := hstep.advances
        obtain ⟨last, ps, hjlast, hlast, hslices, hend⟩ := ih (cs.length - j) (by omega) hj rfl
        exact ⟨last, front ++ ps, by omega, hlast, hstep.slices hslices hjlast, hend⟩
      · exact ⟨i, [], Nat.le_refl i, hi, hnone i, .inr ⟨_, hstuck⟩⟩

/-! ### The tokens of a text -/

/-- A text that is sliced up to its end is scanned into the slices. -/
theorem Slices.lex_eq {s : String} (h : Slices s.toList 0 s.toList.length ps) : lex s = .ok ps := by
  have hscan := lexFrom_of_slices h (Nat.zero_le _) (Nat.le_refl _)
  rw [List.drop_length, lexFrom_nil] at hscan
  exact hscan.trans (congrArg Except.ok (List.append_nil ps))

/-- A text that is sliced up to a place where a scan is stuck is not scanned. -/
theorem Stuck.lex_eq {s : String} (h : Stuck s.toList c last) (hps : Slices s.toList 0 last ps) :
    lex s = .error (.badCharacter c last) := by
  obtain ⟨hlast, -⟩ := List.getElem?_eq_some_iff.1 h.char
  have hscan := lexFrom_of_slices hps (Nat.zero_le _) hlast.le
  rw [lexFrom_of_stuck h] at hscan
  exact hscan

/-- A text is sliced up to its end, or up to a place where a scan is stuck. -/
theorem sliced_or_stuck (s : String) :
    (∃ ps, Slices s.toList 0 s.toList.length ps) ∨
      ∃ c last ps, Slices s.toList 0 last ps ∧ Stuck s.toList c last := by
  obtain ⟨last, ps, -, -, hslices, rfl | ⟨c, hstuck⟩⟩ := exists_slices (Nat.zero_le s.toList.length)
  · exact .inl ⟨ps, hslices⟩
  · exact .inr ⟨c, last, ps, hslices, hstuck⟩

theorem lex_eq_ok_iff {s : String} : lex s = .ok ps ↔ Slices s.toList 0 s.toList.length ps := by
  refine ⟨fun h => ?_, Slices.lex_eq⟩
  rcases sliced_or_stuck s with ⟨qs, hslices⟩ | ⟨c, last, qs, hslices, hstuck⟩
  · cases hslices.lex_eq.symm.trans h
    exact hslices
  · cases (hstuck.lex_eq hslices).symm.trans h

theorem lex_eq_error_iff {s : String} {fault : SyntaxFault} :
    lex s = .error fault ↔ ∃ c place ps, fault = .badCharacter c place ∧
      Slices s.toList 0 place ps ∧ Stuck s.toList c place := by
  constructor
  · intro h
    rcases sliced_or_stuck s with ⟨ps, hslices⟩ | ⟨c, last, ps, hslices, hstuck⟩
    · cases hslices.lex_eq.symm.trans h
    · cases (hstuck.lex_eq hslices).symm.trans h
      exact ⟨c, last, ps, rfl, hslices, hstuck⟩
  · rintro ⟨c, place, ps, rfl, hslices, hstuck⟩
    exact hstuck.lex_eq hslices

/-- Slices stand at rising places. -/
theorem Slices.pairwise_place (h : Slices cs first last ps) :
    (ps.map (·.place)).Pairwise (· < ·) := by
  refine List.pairwise_map.2 (h.apart.imp_of_mem fun {p q} hp _ hpq => ?_)
  exact Nat.lt_of_lt_of_le (h.longest p hp).stop_le.1 hpq

/-- A text is scanned into tokens exactly if these are its slices: apart from each
other, each the longest one at its place, and with blanks beside them.  A scan fails
exactly where it is stuck, at a character that is no blank and starts no token, when
the text before it has been taken apart into slices.

Slices stand at rising places, each token is what stands there and is of its kind, and
with the character right behind it it is no token any more.  And from any place of the
text a scan is some tokens and the scan from a later place, or it is stuck. -/
theorem lex_slices (s : String) :
    (∀ ps, lex s = .ok ps ↔ Slices s.toList 0 s.toList.length ps) ∧
    (∀ fault, lex s = .error fault ↔ ∃ c place ps, fault = .badCharacter c place ∧
      Slices s.toList 0 place ps ∧ Stuck s.toList c place) ∧
    (∀ last ps, Slices s.toList 0 last ps →
      (ps.map (·.place)).Pairwise (· < ·) ∧
      ∀ p ∈ ps, p.token.text = (s.toList.drop p.place).take p.token.text.length ∧
        p.token.WellFormed ∧
        ∀ c, s.toList[p.stop]? = some c → ∀ u : Token, u.WellFormed →
          u.text ≠ p.token.text ++ [c]) ∧
    ∀ i, i < s.toList.length →
      (∃ j ps, i < j ∧ j ≤ s.toList.length ∧
        lexFrom i (s.toList.drop i) = (lexFrom j (s.toList.drop j)).map (ps ++ ·)) ∨
      ∃ c, Stuck s.toList c i ∧ lexFrom i (s.toList.drop i) = .error (.badCharacter c i) := by
  refine ⟨fun ps => lex_eq_ok_iff, fun fault => lex_eq_error_iff, fun last ps h => ?_,
    fun i hi => ?_⟩
  · refine ⟨h.pairwise_place, fun p hp => ?_⟩
    have hlongest := h.longest p hp
    refine ⟨List.prefix_iff_eq_take.1 hlongest.starts, hlongest.wellFormed, fun c hc u hu => ?_⟩
    exact hlongest.not_extended hc hu
  · rcases exists_step_or_stuck hi with ⟨j, front, hstep⟩ | hstuck
    · exact .inl ⟨j, front, hstep.advances.1, hstep.advances.2, hstep.lexFrom_eq⟩
    · exact .inr ⟨_, hstuck, lexFrom_of_stuck hstuck⟩

end Gridbook.Formula
