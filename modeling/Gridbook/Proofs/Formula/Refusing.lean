/-
Gridbook/Proofs/Formula/Refusing.lean

Where a text stops being a formula.  Tokens are viable if some tokens behind them
complete a formula.  What the parser still waits for can always be given to it: an
operand where one has to come, and a parenthesis for each one that is open
(`Pending.viable`).  So the tokens that the parser gets through are exactly the viable
ones (`viable_iff_run`), and it refuses a token as soon as no formula goes on with it.

`SyntaxFault.Describes` says for each fault what it tells about the text: which
character starts no token, which token is the first that no formula has there, which
operand is missing, which parenthesis is not closed.

Main statement: `parse_error_describes`, every fault of a text describes the text.
-/
import Gridbook.Proofs.Formula.Placing
import Gridbook.Proofs.Formula.Printing

namespace Gridbook.Formula

/-! ### Beginnings of formulas -/

/-- Some tokens behind these complete a formula. -/
def Viable (ts : List Token) : Prop :=
  ∃ us t, (∀ u ∈ us, u.WellFormed) ∧ Derives .expression (ts ++ us) t

theorem viable_of_derives {p : Phrase} {ts : List Token} {t : Tree} (h : Derives p ts t) :
    Viable ts := by
  refine ⟨[], t, nofun, ?_⟩
  rw [List.append_nil]
  exact h.loosen (Nat.zero_le _)

/-- What is in front of viable tokens is viable. -/
theorem Viable.of_append {ts us : List Token} (h : Viable (ts ++ us))
    (hus : ∀ u ∈ us, u.WellFormed) : Viable ts := by
  obtain ⟨more, t, hmore, ht⟩ := h
  refine ⟨us ++ more, t, List.forall_mem_append.2 ⟨hus, hmore⟩, ?_⟩
  rwa [← List.append_assoc]

/-- Behind a frame that ends with a factor only a factor starts. -/
theorem Starts.unary_of_tight {p : Phrase} {f : Frame} {stack : List Frame}
    (h : Starts p (f :: stack)) (hf : f.isTight) {us : List Token} {t : Tree}
    (ht : Derives p us t) : Derives .unary us t := by
  cases p with
  | expression =>
    rw [h f rfl] at hf
    cases hf
  | term =>
    have hloose : f.isTight = false := h f rfl
    rw [hloose] at hf
    cases hf
  | unary => exact ht
  | primary => exact .primary ht

/-- Behind a sign only a term starts. -/
theorem Starts.term_of_summand {p : Phrase} {op : Operator} {l : Tree} {stack : List Frame}
    (h : Starts p (.summand op l :: stack)) {us : List Token} {t : Tree}
    (ht : Derives p us t) : Derives .term us t := by
  cases p with
  | expression => cases h _ rfl
  | term => exact ht
  | unary => exact .unary ht
  | primary => exact .unary (.primary ht)

/-- A phrase that may start on the stack makes what is pending viable. -/
theorem Pending.viable {stack : List Frame} {ts : List Token} (h : Pending stack ts) :
    ∀ {p : Phrase} {us : List Token} {t : Tree}, Starts p stack → Derives p us t →
      Viable (ts ++ us) := by
  -- the phrase is the last part of the frame on top, and the frame with it is a phrase
  -- that may start on the frames below
  induction h with
  | nil =>
    intro p us t _ ht
    exact viable_of_derives ht
  | opened _ ih =>
    intro p us t _ ht
    have hgroup : Derives .primary (.opening :: us ++ [.closing]) t :=
      .group (ht.loosen (Nat.zero_le _))
    obtain ⟨more, t', hwf, hderives⟩ := ih (p := .primary) trivial hgroup
    refine ⟨.closing :: more, t', List.forall_mem_cons.2 ⟨trivial, hwf⟩, ?_⟩
    simpa using hderives
  | negation _ ih =>
    intro p us t hstart ht
    have hunary := hstart.unary_of_tight rfl ht
    simpa using ih (p := .unary) trivial (.negate hunary)
  | factor _ hbelow hop hl ih =>
    intro p us t hstart ht
    have hunary := hstart.unary_of_tight rfl ht
    simpa using ih hbelow (.factor hop hl hunary)
  | summand _ hbelow hop hl ih =>
    intro p us t hstart ht
    have hterm := hstart.term_of_summand ht
    simpa using ih hbelow (.summand hop hl hterm)

/-- What leads the parser to a state is viable. -/
theorem Reads.viable {st : State} {ts : List Token} (h : Reads st ts) : Viable ts := by
  cases st with
  | before stack =>
    -- any operand will do
    have hname : Derives .primary [.name ['a']] (.column (String.ofList ['a'])) := .name ['a']
    have hviable := Pending.viable h (p := .primary) trivial hname
    apply hviable.of_append
    exact List.forall_mem_singleton.2 ⟨'a', [], rfl, by decide, nofun⟩
  | after stack t =>
    obtain ⟨front, back, rfl, hpending, ht⟩ := h
    exact hpending.viable (p := .primary) trivial ht

/-- What the parser has got through leads to the state that it is in. -/
theorem reads_of_run {ps : List Placed} {st : State}
    (hrun : ps.foldlM step (.before []) = .ok st) : Reads st (ps.map Placed.token) := by
  have hstart : Reads (.before []) [] := Pending.nil
  simpa using reads_run hstart hrun

/-- The tokens that the parser gets through are the viable ones. -/
theorem viable_iff_run {ps : List Placed} :
    Viable (ps.map Placed.token) ↔ ∃ st, ps.foldlM step (.before []) = .ok st := by
  constructor
  · rintro ⟨us, t, -, ht⟩
    have hmap : (ps ++ us.map (Placed.mk · 0)).map Placed.token = ps.map Placed.token ++ us := by
      simp [Function.comp_def]
    obtain ⟨s, u, hrun, -⟩ := completes_of_derives ht _ hmap [] (starts_nil _)
    rw [List.foldlM_append] at hrun
    obtain ⟨st, hst, -⟩ := Outcome.bind_eq_ok.1 hrun
    exact ⟨st, hst⟩
  · rintro ⟨st, hrun⟩
    exact (reads_of_run hrun).viable

/-- A token can follow viable tokens exactly if the parser steps over it. -/
theorem viable_append_iff {ps : List Placed} {st : State}
    (hrun : ps.foldlM step (.before []) = .ok st) (p : Placed) :
    Viable (ps.map Placed.token ++ [p.token]) ↔ ∃ st', step st p = .ok st' := by
  have hmap : ps.map Placed.token ++ [p.token] = (ps ++ [p]).map Placed.token := by simp
  have hlast : (ps ++ [p]).foldlM step (.before []) = step st p := by
    rw [List.foldlM_append, hrun]
    show (step st p >>= pure) = step st p
    exact bind_pure _
  rw [hmap, viable_iff_run, hlast]

/-! ### Steps that fail -/

/-- May an operand start with this token? -/
def Token.StartsOperand : Token → Prop
  | .number _ => True
  | .name _ => True
  | .opening => True
  | .operator op => op = .minus
  | .closing => False

/-- Where an operand has to come, the parser steps over what starts one. -/
theorem step_before_iff {stack : List Frame} {p : Placed} :
    (∃ st, step (.before stack) p = .ok st) ↔ p.token.StartsOperand := by
  obtain ⟨token, n⟩ := p
  cases token with
  | number l => exact ⟨fun _ => trivial, fun _ => ⟨_, rfl⟩⟩
  | name cs => exact ⟨fun _ => trivial, fun _ => ⟨_, rfl⟩⟩
  | opening => exact ⟨fun _ => trivial, fun _ => ⟨_, rfl⟩⟩
  | closing => exact ⟨nofun, nofun⟩
  | operator op =>
    cases op with
    | minus => exact ⟨fun _ => rfl, fun _ => ⟨_, rfl⟩⟩
    | plus => exact ⟨nofun, nofun⟩
    | times => exact ⟨nofun, nofun⟩
    | divide => exact ⟨nofun, nofun⟩

/-- A step blames the token, or a parenthesis that is open behind an operand. -/
theorem step_eq_error {st : State} {p : Placed} {fault : SyntaxFault}
    (h : step st p = .error fault) :
    fault = p.unexpected ∨
      fault = .unclosed ∧ ∃ stack t, st = .after stack t ∧ anyOpened stack := by
  obtain ⟨token, n⟩ := p
  have hword : ∀ {stack t}, (Except.error (if anyOpened stack then .unclosed
      else Placed.unexpected ⟨token, n⟩) : Except SyntaxFault State) = .error fault →
      fault = Placed.unexpected ⟨token, n⟩ ∨ fault = .unclosed ∧
        ∃ stack' t', State.after stack t = .after stack' t' ∧ anyOpened stack' := by
    intro stack t h
    split at h
    · next hopened =>
      cases h
      exact .inr ⟨rfl, stack, t, rfl, hopened⟩
    · cases h
      exact .inl rfl
  cases st with
  | before stack =>
    cases token with
    | number l => cases h
    | name cs => cases h
    | opening => cases h
    | closing =>
      cases h
      exact .inl rfl
    | operator op =>
      cases op <;> cases h
      all_goals exact .inl rfl
  | after stack t =>
    cases token with
    | number l => exact hword h
    | name cs => exact hword h
    | opening => exact hword h
    | closing =>
      simp only [step] at h
      split at h
      · cases h
      · cases h
        exact .inl rfl
    | operator op =>
      rcases hop : op.isSign with - | -
      · rw [step_factor rfl hop] at h
        cases h
      · rw [step_sign rfl hop] at h
        cases h

/-! ### Parentheses that are open -/

theorem anyOpened_closeFactors (stack : List Frame) (t : Tree) :
    anyOpened (closeFactors stack t).1 = anyOpened stack := by
  fun_induction closeFactors stack t with
  | case1 t stack ih => exact ih
  | case2 t op left stack ih => exact ih
  | case3 stack t => rfl

/-- An operand that is completed leaves the parentheses around it open. -/
theorem anyOpened_closeSummands (stack : List Frame) (t : Tree) :
    anyOpened (closeSummands stack t).1 = anyOpened stack := by
  rw [← anyOpened_closeFactors stack t]
  unfold closeSummands
  split
  · next hclose =>
    rw [hclose]
    rfl
  · rfl

/-- A parenthesis that is open behind an operand holds an expression. -/
theorem Reads.exists_group {stack : List Frame} {t : Tree} {ts : List Token}
    (h : Reads (.after stack t) ts) (hstack : (closeSummands stack t).1 ≠ []) :
    ∃ front inner u, ts = front ++ .opening :: inner ∧ Derives .expression inner u := by
  obtain ⟨front, back, rfl, hpending, ht⟩ := h
  obtain ⟨stack', t', front', back', hclose, happ, hpending', hstart, hexpr⟩ :=
    closeSummands_sound hpending (.primary ht)
  rw [hclose] at hstack
  -- an expression starts on a parenthesis only, if on any frame
  cases hpending' with
  | nil => exact absurd rfl hstack
  | @opened s ts _ =>
    refine ⟨ts, back', t', ?_, hexpr⟩
    rw [happ, List.append_assoc]
    rfl
  | negation => cases hstart _ rfl
  | factor => cases hstart _ rfl
  | summand => cases hstart _ rfl

/-! ### Faults -/

/-- What a fault tells about the text that has it.  Places count from zero, those in a
message from one. -/
def SyntaxFault.Describes (s : String) : SyntaxFault → Prop
  -- nothing but blanks
  | .blank => ∀ c ∈ s.toList, Text.isBlank c
  -- the text before the character is cut into tokens, and none starts with it
  | .badCharacter c place =>
    ∃ front rest ts, s.toList = front ++ c :: rest ∧ place = front.length ∧ Cut front ts ∧
      Text.isBlank c = false ∧ ∀ t : Token, t.WellFormed → ¬ t.text <+: c :: rest
  -- the token stands at the place; formulas go on with those before it, and none with it
  | .badToken text place =>
    ∃ front rest ts t us, s.toList = front ++ (t.text ++ rest) ∧ place = front.length ∧
      text = String.ofList t.text ∧ t.IsLongest (t.text ++ rest) ∧ Cut front ts ∧
      Cut s.toList (ts ++ t :: us) ∧ Viable ts ∧ ¬ Viable (ts ++ [t])
  -- all tokens begin a formula, they are none, and only an operand can follow
  | .badEnd =>
    ∃ ts, Cut s.toList ts ∧ Viable ts ∧ (¬ ∃ t, Derives .expression ts t) ∧
      ∀ u, Viable (ts ++ [u]) ↔ u.StartsOperand
  -- a parenthesis holds an expression and the text ends there, or goes on with a token
  -- that no formula has there
  | .unclosed =>
    ∃ front inner t rest, Cut s.toList (front ++ .opening :: inner ++ rest) ∧
      Derives .expression inner t ∧ Viable (front ++ .opening :: inner) ∧
      ∀ u, rest.head? = some u → ¬ Viable (front ++ .opening :: inner ++ [u])

/-- The parser fails at a token, with the tokens before it read, or at the end. -/
theorem ofTokens_eq_error {ps : List Placed} {fault : SyntaxFault}
    (h : Tree.ofTokens ps = .error fault) :
    (∃ before p after st, ps = before ++ p :: after ∧
      before.foldlM step (.before []) = .ok st ∧ step st p = .error fault) ∨
    ∃ st, ps.foldlM step (.before []) = .ok st ∧ finish st = .error fault := by
  rcases Outcome.bind_eq_error.1 h with hrun | hfinish
  · exact .inl (Outcome.foldlM_eq_error.1 hrun)
  · exact .inr hfinish

variable {s : String} {ps : List Placed}

/-- A fault at a token. -/
theorem describes_of_step {before after : List Placed} {p : Placed} {st : State}
    {fault : SyntaxFault} (hlex : lex s = .ok (before ++ p :: after))
    (hrun : before.foldlM step (.before []) = .ok st) (hstep : step st p = .error fault) :
    fault.Describes s := by
  have hcut : Cut s.toList (before.map Placed.token ++ p.token :: after.map Placed.token) := by
    have hall := cut_of_lexFrom hlex
    rwa [List.map_append, List.map_cons] at hall
  have hviable : Viable (before.map Placed.token) := viable_iff_run.2 ⟨st, hrun⟩
  have hnot : ¬ Viable (before.map Placed.token ++ [p.token]) := by
    rw [viable_append_iff hrun]
    rintro ⟨st', hst'⟩
    rw [hstep] at hst'
    cases hst'
  rcases step_eq_error hstep with rfl | ⟨rfl, stack, t, rfl, hopened⟩
  · obtain ⟨front, rest, hs, hplace, hfront, hlongest⟩ := place_of_lexFrom hlex
    rw [Nat.zero_add] at hplace
    exact ⟨front, rest, _, p.token, _, hs, hplace, rfl, hlongest, hfront, hcut, hviable, hnot⟩
  · have hstack : (closeSummands stack t).1 ≠ [] := by
      intro hnil
      rw [← anyOpened_closeSummands stack t, hnil] at hopened
      cases hopened
    obtain ⟨front, inner, u, hts, hinner⟩ := (reads_of_run hrun).exists_group hstack
    rw [hts] at hcut hviable hnot
    refine ⟨front, inner, u, _, hcut, hinner, hviable, ?_⟩
    rintro _ ⟨⟩
    exact hnot

/-- A fault at the end. -/
theorem describes_of_finish {st : State} {fault : SyntaxFault} (hlex : lex s = .ok ps)
    (hrun : ps.foldlM step (.before []) = .ok st) (hfinish : finish st = .error fault) :
    fault.Describes s := by
  have hcut : Cut s.toList (ps.map Placed.token) := cut_of_lexFrom hlex
  have hviable : Viable (ps.map Placed.token) := viable_iff_run.2 ⟨st, hrun⟩
  cases st with
  | before stack =>
    cases hfinish
    refine ⟨_, hcut, hviable, ?_, ?_⟩
    · rintro ⟨t, ht⟩
      obtain ⟨st, hst, hok⟩ := Outcome.bind_eq_ok.1 (ofTokens_eq_ok_iff.2 ht)
      cases hrun.symm.trans hst
      cases hok
    · intro u
      rw [viable_append_iff hrun ⟨u, 0⟩, step_before_iff]
  | after stack t =>
    rcases hclose : closeSummands stack t with ⟨stack', t'⟩
    simp only [finish, hclose] at hfinish
    cases stack' with
    | nil => cases hfinish
    | cons f below =>
      cases hfinish
      have hstack : (closeSummands stack t).1 ≠ [] := by
        rw [hclose]
        exact List.cons_ne_nil f below
      obtain ⟨front, inner, u, hts, hinner⟩ := (reads_of_run hrun).exists_group hstack
      rw [hts] at hcut hviable
      refine ⟨front, inner, u, [], ?_, hinner, hviable, ?_⟩
      · rwa [List.append_nil]
      · rintro _ ⟨⟩

/-- A fault of a text describes the text: the first character that starts no token, and
if there is none, the first token that no formula has there, with the tokens before it
beginning one. -/
theorem parse_error_describes (s : String) :
    ∀ fault, parse s = .error fault → fault.Describes s := by
  intro fault h
  rw [parse_eq] at h
  split at h
  · next hblank =>
    cases h
    exact List.all_eq_true.1 hblank
  · rcases Outcome.bind_eq_error.1 h with hlex | ⟨ps, hlex, h⟩
    · obtain ⟨front, c, rest, ts, hs, rfl, hcut, hc⟩ := place_of_bad hlex
      exact ⟨front, rest, ts, hs, Nat.zero_add _, hcut, hc⟩
    · rcases Outcome.bind_eq_error.1 h with htree | ⟨t, -, h⟩
      · rcases ofTokens_eq_error htree with ⟨before, p, after, st, rfl, hrun, hstep⟩ |
          ⟨st, hrun, hfinish⟩
        · exact describes_of_step hlex hrun hstep
        · exact describes_of_finish hlex hrun hfinish
      · cases h

/-- A character that starts no token, a call, a sign without its operand, and a
parenthesis with two names in it. -/
theorem parse_error_describes_four :
    (parse "a $ b" = .error (.badCharacter '$' 2) ∧
      (SyntaxFault.badCharacter '$' 2).Describes "a $ b" ∧
      (SyntaxFault.badCharacter '$' 2).message = "Unexpected character '$' at position 3") ∧
    (parse "a (b)" = .error (.badToken "(" 2) ∧
      (SyntaxFault.badToken "(" 2).Describes "a (b)" ∧
      (SyntaxFault.badToken "(" 2).message = "Unexpected token '(' at position 3") ∧
    (parse "a * -" = .error .badEnd ∧ SyntaxFault.badEnd.Describes "a * -") ∧
    (parse "(a b)" = .error .unclosed ∧ SyntaxFault.unclosed.Describes "(a b)") := by
  have hcharacter : parse "a $ b" = .error (.badCharacter '$' 2) := by decide +kernel
  have htoken : parse "a (b)" = .error (.badToken "(" 2) := by decide +kernel
  have hend : parse "a * -" = .error .badEnd := by decide +kernel
  have hopen : parse "(a b)" = .error .unclosed := by decide +kernel
  refine ⟨⟨hcharacter, parse_error_describes _ _ hcharacter, ?_⟩,
    ⟨htoken, parse_error_describes _ _ htoken, ?_⟩, ⟨hend, parse_error_describes _ _ hend⟩,
    ⟨hopen, parse_error_describes _ _ hopen⟩⟩
  · decide +kernel
  · decide +kernel

end Gridbook.Formula
