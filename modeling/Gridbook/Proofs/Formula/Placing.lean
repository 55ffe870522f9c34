/-
Gridbook/Proofs/Formula/Placing.lean

Where the scanner finds its tokens.  A scan that has come to a token has taken the
text before it apart: into the tokens before, with blanks between them, and the
token stands at its place (`place_of_lexFrom`).  A scan that stops has done the same
with the text before the character at which no token starts (`place_of_bad`).

Both go along the scan, one token at a time (`lexFrom_eq_cons`).  A token that is the
longest one of the whole text is so of a text that ends sooner, as long as the token
itself is there (`Token.IsLongest.of_prefix`).
-/
import Gridbook.Proofs.Formula.Cut

namespace Gridbook.Formula

/-! ### Texts that end sooner -/

/-- A token that is the longest one stays so where less follows it. -/
theorem Token.IsLongest.of_prefix {t : Token} {rest front : List Char}
    (h : t.IsLongest (t.text ++ rest)) (hfront : front <+: rest) :
    t.IsLongest (t.text ++ front) := by
  refine ⟨h.wellFormed, List.prefix_append _ _, ?_⟩
  intro u hu hstarts
  apply h.longest u hu
  exact hstarts.trans ((List.prefix_append_right_inj t.text).2 hfront)

/-! ### One token of a scan -/

/-- A scan that has a first token: blanks, the token, and the scan of what follows. -/
theorem lexFrom_eq_cons {place : Nat} {cs : List Char} {p : Placed} {ps : List Placed}
    (h : lexFrom place cs = .ok (p :: ps)) :
    ∃ blanks rest, (∀ c ∈ blanks, Text.isBlank c) ∧ cs = blanks ++ (p.token.text ++ rest) ∧
      p.place = place + blanks.length ∧ p.token.IsLongest (p.token.text ++ rest) ∧
      lexFrom (p.place + p.token.text.length) rest = .ok ps := by
  have hsplit := List.takeWhile_append_dropWhile (p := Text.isBlank) (l := cs)
  rw [lexFrom_eq] at h
  cases hnext : next? (cs.dropWhile Text.isBlank) with
  | none =>
    rw [hnext] at h
    dsimp only at h
    cases hcs : cs.dropWhile Text.isBlank with
    | nil =>
      rw [hcs] at h
      cases h
    | cons c rest =>
      rw [hcs] at h
      cases h
  | some found =>
    obtain ⟨t, rest⟩ := found
    obtain ⟨hlongest, hcs⟩ := next?_eq_some_iff.1 hnext
    rw [hnext] at h
    obtain ⟨qs, hqs, hcons⟩ := Outcome.map_eq_ok.1 h
    cases hcons
    refine ⟨cs.takeWhile Text.isBlank, rest, ?_, ?_, rfl, ?_, hqs⟩
    · intro c hc
      exact List.mem_takeWhile_imp hc
    · rw [← hcs, hsplit]
    · rwa [hcs] at hlongest

/-! ### Places -/

/-- A scan with a token in it has cut the text before the token into the tokens
before, and the token is the longest one at its place. -/
theorem place_of_lexFrom {place : Nat} {cs : List Char} {p : Placed} {ps qs : List Placed}
    (h : lexFrom place cs = .ok (ps ++ p :: qs)) :
    ∃ front rest, cs = front ++ (p.token.text ++ rest) ∧ p.place = place + front.length ∧
      Cut front (ps.map Placed.token) ∧ p.token.IsLongest (p.token.text ++ rest) := by
  induction ps generalizing place cs with
  | nil =>
    obtain ⟨blanks, rest, hblanks, hcs, hplace, hlongest, -⟩ := lexFrom_eq_cons h
    exact ⟨blanks, rest, hcs, hplace, cut_of_blanks hblanks, hlongest⟩
  | cons q ps ih =>
    obtain ⟨blanks, rest, hblanks, rfl, hplace, hlongest, hrest⟩ := lexFrom_eq_cons h
    obtain ⟨front, back, rfl, hback, hcut, hfound⟩ := ih hrest
    refine ⟨blanks ++ (q.token.text ++ front), back, ?_, ?_, ?_, hfound⟩
    · simp only [List.append_assoc]
    · simp only [List.length_append]
      omega
    · -- the first token is the longest one also of the text up to the place
      apply Cut.blanks hblanks
      exact .token (hlongest.of_prefix (List.prefix_append front _)) hcut

/-- A scan that stops has cut the text before a character at which no token starts,
and which is no blank. -/
theorem place_of_bad {place : Nat} {cs : List Char} {fault : SyntaxFault}
    (h : lexFrom place cs = .error fault) :
    ∃ front c rest ts, cs = front ++ c :: rest ∧ fault = .badCharacter c (place + front.length) ∧
      Cut front ts ∧ Text.isBlank c = false ∧
      ∀ t : Token, t.WellFormed → ¬ t.text <+: c :: rest := by
  induction place, cs using lexFrom.induct with
  | case1 place cs start t rest hnext _ ih =>
    rw [lexFrom_eq, hnext] at h
    obtain ⟨front, c, back, ts, hrest, hfault, hcut, hc⟩ := ih (Outcome.map_eq_error.1 h)
    obtain ⟨hlongest, hcs⟩ := next?_eq_some_iff.1 hnext
    rw [hcs] at hlongest
    refine ⟨cs.takeWhile Text.isBlank ++ (t.text ++ front), c, back, t :: ts, ?_, ?_, ?_, hc⟩
    · conv_lhs => rw [← List.takeWhile_append_dropWhile (p := Text.isBlank) (l := cs), hcs, hrest]
      simp only [List.append_assoc]
    · rw [hfault]
      simp only [start, List.length_append, Nat.add_assoc]
    · apply Cut.blanks (fun c hc => List.mem_takeWhile_imp hc)
      apply Cut.token _ hcut
      exact hlongest.of_prefix (hrest ▸ List.prefix_append front _)
  | case2 place cs hnext hcs =>
    rw [lexFrom_eq, hnext, hcs] at h
    cases h
  | case3 place cs hnext c rest hcs =>
    rw [lexFrom_eq, hnext, hcs] at h
    cases h
    refine ⟨cs.takeWhile Text.isBlank, c, rest, [], ?_, rfl, ?_, ?_, ?_⟩
    · rw [← hcs, List.takeWhile_append_dropWhile]
    · exact cut_of_blanks fun c hc => List.mem_takeWhile_imp hc
    · have hpos : 0 < (cs.dropWhile Text.isBlank).length := by
        rw [hcs]
        exact Nat.succ_pos _
      have hnot := List.dropWhile_get_zero_not Text.isBlank cs hpos
      simpa [hcs] using hnot
    · exact next?_eq_none_iff.1 (hcs ▸ hnext)

end Gridbook.Formula
