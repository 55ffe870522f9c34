/-
Gridbook/Proofs/Formula/Grammar.lean

The grammar of formulas, and the parser against it:

    expression := term (("+" | "-") term)*
    term       := unary (("*" | "/") unary)*
    unary      := "-" unary | primary
    primary    := NUMBER | NAME | "(" expression ")"

`Derives p ts t` says that the tokens `ts` are a phrase of kind `p` with the
tree `t`.  A chain of terms or factors is one phrase followed by one more
operator and operand, so a chain groups to the left.

The parser keeps a stack where the grammar nests.  `Pending stack ts` ties the
two: the tokens `ts` are what the frames of the stack stand for, and each frame
still waits for its last part.  Every step of the parser keeps the tie
(`reads_step`), so what it completes is a phrase; conversely a phrase takes the
parser from any stack on which such a phrase may start to the state in which it
is completed (`completes_of_derives`).

Main statements: the parser accepts exactly the expressions, with their trees
(`ofTokens_eq_ok_iff`), and a text is a formula exactly when its tokens are an
expression (`parse_iff_derives`).
-/
import Gridbook.Error
import Gridbook.Proofs.Formula.Cut
import Gridbook.Proofs.Formula.Naming

namespace Gridbook.Formula

/-! ### The grammar -/

/-- The kinds of phrases. -/
inductive Phrase where
  | expression
  | term
  | unary
  | primary
deriving Repr, DecidableEq

/-- Is the operator one that joins terms?  The others join factors. -/
def Operator.isSign : Operator → Bool
  | plus => true
  | minus => true
  | _ => false

/-- The tokens are a phrase of this kind with this tree. -/
inductive Derives : Phrase → List Token → Tree → Prop
  | number (l : Literal) : Derives .primary [.number l] (.literal l.toReal)
  | name (cs : List Char) : Derives .primary [.name cs] (.column (String.ofList cs))
  | group {ts t} : Derives .expression ts t → Derives .primary (.opening :: ts ++ [.closing]) t
  | primary {ts t} : Derives .primary ts t → Derives .unary ts t
  | negate {ts t} : Derives .unary ts t → Derives .unary (.operator .minus :: ts) (.negate t)
  | unary {ts t} : Derives .unary ts t → Derives .term ts t
  | factor {op ts us l r} : op.isSign = false → Derives .term ts l → Derives .unary us r →
      Derives .term (ts ++ .operator op :: us) (.binary op l r)
  | term {ts t} : Derives .term ts t → Derives .expression ts t
  | summand {op ts us l r} : op.isSign = true → Derives .expression ts l → Derives .term us r →
      Derives .expression (ts ++ .operator op :: us) (.binary op l r)

/-! ### Where phrases may start -/

/-- Does the frame end with the factor that follows it? -/
def Frame.isTight : Frame → Bool
  | negation => true
  | factor _ _ => true
  | _ => false

/-- May a phrase of this kind start on the stack?  A term must not be a part of
another term, and an expression stands alone or in parentheses. -/
def Starts : Phrase → List Frame → Prop
  | .expression, stack => ∀ f, stack.head? = some f → f = .opened
  | .term, stack => ∀ f, stack.head? = some f → f.isTight = false
  | _, _ => True

theorem Starts.term {stack : List Frame} (h : Starts .expression stack) : Starts .term stack := by
  intro f hf
  rw [h f hf]
  rfl

theorem starts_nil (p : Phrase) : Starts p [] := by
  cases p <;> simp [Starts]

theorem starts_opened (stack : List Frame) : Starts .expression (.opened :: stack) := by
  rintro _ ⟨⟩
  rfl

theorem starts_summand (op : Operator) (l : Tree) (stack : List Frame) :
    Starts .term (.summand op l :: stack) := by
  rintro _ ⟨⟩
  rfl

theorem closeFactors_eq_self {stack : List Frame} (h : Starts .term stack) (t : Tree) :
    closeFactors stack t = (stack, t) := by
  rcases stack with - | ⟨f, stack⟩
  · rfl
  · have := h f rfl
    cases f <;> first | rfl | cases this

theorem closeSummands_of_term {stack s : List Frame} {t u : Tree} (h : Starts .expression stack)
    (hu : closeFactors s u = (stack, t)) : closeSummands s u = (stack, t) := by
  unfold closeSummands
  rw [hu]
  rcases stack with - | ⟨f, stack⟩
  · rfl
  · rw [h f rfl]

/-- An expression and a sign in front of a term. -/
theorem closeSummands_of_summand {stack s : List Frame} {op : Operator} {l t u : Tree}
    (hu : closeFactors s u = (.summand op l :: stack, t)) :
    closeSummands s u = (stack, .binary op l t) := by
  unfold closeSummands
  rw [hu]

/-! ### The parser's steps -/

theorem step_sign {s stack : List Frame} {u t : Tree} (h : closeSummands s u = (stack, t))
    {op : Operator} (hop : op.isSign = true) (n : Nat) :
    step (.after s u) ⟨.operator op, n⟩ = .ok (.before (.summand op t :: stack)) := by
  cases op with
  | plus => simp only [step, h]
  | minus => simp only [step, h]
  | times => cases hop
  | divide => cases hop

theorem step_factor {s stack : List Frame} {u t : Tree} (h : closeFactors s u = (stack, t))
    {op : Operator} (hop : op.isSign = false) (n : Nat) :
    step (.after s u) ⟨.operator op, n⟩ = .ok (.before (.factor op t :: stack)) := by
  cases op with
  | plus => cases hop
  | minus => cases hop
  | times => simp only [step, h]
  | divide => simp only [step, h]

theorem step_closing {s stack : List Frame} {u t : Tree}
    (h : closeSummands s u = (.opened :: stack, t)) (n : Nat) :
    step (.after s u) ⟨.closing, n⟩ = .ok (.after stack t) := by
  simp only [step, h]

/-! ### Every phrase is read -/

/-- How a phrase of this kind, started on `stack`, has been completed. -/
def Completed : Phrase → List Frame → Tree → List Frame → Tree → Prop
  | .expression, stack, t, s, u => closeSummands s u = (stack, t)
  | .term, stack, t, s, u => closeFactors s u = (stack, t)
  | .unary, stack, t, s, u => closeFactors s u = closeFactors stack t
  | .primary, stack, t, s, u => s = stack ∧ u = t

/-- A phrase takes the parser to the state in which it is completed. -/
theorem completes_of_derives {p : Phrase} {ts : List Token} {t : Tree} (h : Derives p ts t) :
    ∀ ps : List Placed, ps.map Placed.token = ts → ∀ stack, Starts p stack →
      ∃ s u, ps.foldlM step (.before stack) = .ok (.after s u) ∧ Completed p stack t s u := by
  -- along the derivation, for all stacks at once: a part of a phrase starts on
  -- the frames that the whole has put there
  induction h with
  | number l =>
    intro ps hps stack _
    obtain ⟨⟨_, n⟩, rfl, rfl⟩ := List.map_eq_singleton_iff.1 hps
    exact ⟨stack, _, rfl, rfl, rfl⟩
  | name cs =>
    intro ps hps stack _
    obtain ⟨⟨_, n⟩, rfl, rfl⟩ := List.map_eq_singleton_iff.1 hps
    exact ⟨stack, _, rfl, rfl, rfl⟩
  | @group ts t _ ih =>
    intro ps hps stack _
    obtain ⟨front, back, rfl, hfront, hback⟩ := List.map_eq_append_iff.1 hps
    obtain ⟨⟨_, n⟩, rfl, rfl⟩ := List.map_eq_singleton_iff.1 hback
    obtain ⟨⟨_, m⟩, qs, rfl, rfl, hqs⟩ := List.map_eq_cons_iff.1 hfront
    obtain ⟨s, u, hread, hdone⟩ := ih qs hqs (.opened :: stack) (starts_opened stack)
    refine ⟨stack, t, ?_, rfl, rfl⟩
    rw [List.foldlM_append, List.foldlM_cons]
    -- behind the opening parenthesis the expression starts on a frame of its own
    show (qs.foldlM step (.before (.opened :: stack)) >>= _) = _
    rw [hread]
    show ([⟨Token.closing, n⟩] : List Placed).foldlM step (.after s u) = _
    rw [List.foldlM_cons, step_closing hdone]
    rfl
  | primary _ ih =>
    intro ps hps stack _
    obtain ⟨s, u, hread, rfl, rfl⟩ := ih ps hps stack trivial
    exact ⟨s, u, hread, rfl⟩
  | @negate ts t _ ih =>
    intro ps hps stack _
    obtain ⟨⟨_, n⟩, qs, rfl, rfl, hqs⟩ := List.map_eq_cons_iff.1 hps
    obtain ⟨s, u, hread, hdone⟩ := ih qs hqs (.negation :: stack) trivial
    exact ⟨s, u, hread, hdone⟩
  | unary _ ih =>
    intro ps hps stack hstart
    obtain ⟨s, u, hread, hdone⟩ := ih ps hps stack trivial
    exact ⟨s, u, hread, hdone.trans (closeFactors_eq_self hstart _)⟩
  | @factor op ts us l r hop _ _ ihl ihr =>
    intro ps hps stack hstart
    obtain ⟨ls, more, rfl, hls, hmore⟩ := List.map_eq_append_iff.1 hps
    obtain ⟨⟨_, n⟩, rs, rfl, rfl, hrs⟩ := List.map_eq_cons_iff.1 hmore
    obtain ⟨s, u, hread, hdone⟩ := ihl ls hls stack hstart
    obtain ⟨s', u', hread', hdone'⟩ := ihr rs hrs (.factor op l :: stack) trivial
    refine ⟨s', u', ?_, hdone'.trans (closeFactors_eq_self hstart _)⟩
    -- the operator closes all factors before it, so the chain groups to the left
    rw [List.foldlM_append, hread]
    show (Placed.mk (.operator op) n :: rs).foldlM step (.after s u) = _
    rw [List.foldlM_cons, step_factor hdone hop]
    exact hread'
  | term _ ih =>
    intro ps hps stack hstart
    obtain ⟨s, u, hread, hdone⟩ := ih ps hps stack hstart.term
    exact ⟨s, u, hread, closeSummands_of_term hstart hdone⟩
  | @summand op ts us l r hop _ _ ihl ihr =>
    intro ps hps stack hstart
    obtain ⟨ls, more, rfl, hls, hmore⟩ := List.map_eq_append_iff.1 hps
    obtain ⟨⟨_, n⟩, rs, rfl, rfl, hrs⟩ := List.map_eq_cons_iff.1 hmore
    obtain ⟨s, u, hread, hdone⟩ := ihl ls hls stack hstart
    obtain ⟨s', u', hread', hdone'⟩ :=
      ihr rs hrs (.summand op l :: stack) (starts_summand op l stack)
    refine ⟨s', u', ?_, closeSummands_of_summand hdone'⟩
    rw [List.foldlM_append, hread]
    show (Placed.mk (.operator op) n :: rs).foldlM step (.after s u) = _
    rw [List.foldlM_cons, step_sign hdone hop]
    exact hread'

/-! ### Only phrases are read -/

/-- The tokens are what the frames of the stack stand for, and each frame still
waits for its last part. -/
inductive Pending : List Frame → List Token → Prop
  | nil : Pending [] []
  | opened {stack ts} : Pending stack ts → Pending (.opened :: stack) (ts ++ [.opening])
  | negation {stack ts} : Pending stack ts →
      Pending (.negation :: stack) (ts ++ [.operator .minus])
  | factor {stack ts us op l} : Pending stack ts → Starts .term stack → op.isSign = false →
      Derives .term us l → Pending (.factor op l :: stack) (ts ++ (us ++ [.operator op]))
  | summand {stack ts us op l} : Pending stack ts → Starts .expression stack →
      op.isSign = true → Derives .expression us l →
      Pending (.summand op l :: stack) (ts ++ (us ++ [.operator op]))

/-- The tokens that lead to a state. -/
def Reads : State → List Token → Prop
  | .before stack, ts => Pending stack ts
  | .after stack t, ts =>
    ∃ front back, ts = front ++ back ∧ Pending stack front ∧ Derives .primary back t

/-- Closing factors moves tokens from the stack into the term that is
completed. -/
theorem closeFactors_sound {stack : List Frame} {ts : List Token} (h : Pending stack ts) :
    ∀ {us : List Token} {t : Tree}, Derives .unary us t →
      ∃ stack' t' front back, closeFactors stack t = (stack', t') ∧ ts ++ us = front ++ back ∧
        Pending stack' front ∧ Starts .term stack' ∧ Derives .term back t' := by
  -- only a sign in front goes on to the next frame, with the negated tree
  induction h with
  | nil =>
    intro us t ht
    exact ⟨_, _, _, _, rfl, rfl, .nil, starts_nil _, .unary ht⟩
  | opened hs _ =>
    intro us t ht
    exact ⟨_, _, _, _, rfl, rfl, .opened hs, (starts_opened _).term, .unary ht⟩
  | negation _ ih =>
    intro us t ht
    obtain ⟨stack', t', front, back, hclose, happ, hrest⟩ := ih (.negate ht)
    exact ⟨stack', t', front, back, hclose, by simpa using happ, hrest⟩
  | @factor stack ts us op l hs hstart hop hl _ =>
    intro vs t ht
    refine ⟨stack, _, ts, us ++ .operator op :: vs, ?_, by simp, hs, hstart, .factor hop hl ht⟩
    exact closeFactors_eq_self hstart _
  | summand hs hstart hop hl _ =>
    intro us t ht
    exact ⟨_, _, _, _, rfl, rfl, .summand hs hstart hop hl, starts_summand _ _ _, .unary ht⟩

/-- Closing summands moves tokens from the stack into the expression that is
completed. -/
theorem closeSummands_sound {stack : List Frame} {ts us : List Token} {t : Tree}
    (h : Pending stack ts) (ht : Derives .unary us t) :
    ∃ stack' t' front back, closeSummands stack t = (stack', t') ∧ ts ++ us = front ++ back ∧
      Pending stack' front ∧ Starts .expression stack' ∧ Derives .expression back t' := by
  obtain ⟨s, u, front, back, hclose, happ, hpending, hstart, hterm⟩ := closeFactors_sound h ht
  -- a frame that ends with a factor cannot be on top any more
  cases hpending with
  | nil => exact ⟨_, _, _, _, closeSummands_of_term (starts_nil _) hclose, happ, .nil,
      starts_nil _, .term hterm⟩
  | opened hs => exact ⟨_, _, _, _, closeSummands_of_term (starts_opened _) hclose, happ,
      .opened hs, starts_opened _, .term hterm⟩
  | negation hs => cases hstart _ rfl
  | factor hs => cases hstart _ rfl
  | @summand stack ts us op l hs hexpr hop hl =>
    refine ⟨stack, _, ts, us ++ .operator op :: back, closeSummands_of_summand hclose, ?_, hs,
      hexpr, .summand hop hl hterm⟩
    simpa using happ

/-- A step reads one token. -/
theorem reads_step {st st' : State} {p : Placed} {ts : List Token} (h : Reads st ts)
    (hstep : step st p = .ok st') : Reads st' (ts ++ [p.token]) := by
  obtain ⟨token, n⟩ := p
  cases st with
  | before stack =>
    -- an operand, or something that opens one
    cases token with
    | number l =>
      cases hstep
      exact ⟨ts, _, rfl, h, .number l⟩
    | name cs =>
      cases hstep
      exact ⟨ts, _, rfl, h, .name cs⟩
    | operator op =>
      cases op <;> cases hstep
      exact .negation h
    | opening =>
      cases hstep
      exact .opened h
    | closing => cases hstep
  | after stack t =>
    obtain ⟨front, back, rfl, hpending, ht⟩ := h
    -- an operator, or the end of a group
    cases token with
    | number l => cases hstep
    | name cs => cases hstep
    | operator op =>
      rcases hop : op.isSign with - | -
      · obtain ⟨stack', t', front', back', hclose, happ, hpending', hstart, hterm⟩ :=
          closeFactors_sound hpending (.primary ht)
        rw [step_factor hclose hop] at hstep
        cases hstep
        rw [happ, List.append_assoc]
        exact .factor hpending' hstart hop hterm
      · obtain ⟨stack', t', front', back', hclose, happ, hpending', hstart, hexpr⟩ :=
          closeSummands_sound hpending (.primary ht)
        rw [step_sign hclose hop] at hstep
        cases hstep
        rw [happ, List.append_assoc]
        exact .summand hpending' hstart hop hexpr
    | opening => cases hstep
    | closing =>
      obtain ⟨stack', t', front', back', hclose, happ, hpending', hstart, hexpr⟩ :=
        closeSummands_sound hpending (.primary ht)
      cases hpending' with
      | @opened stack'' ts' hs =>
        rw [step_closing hclose] at hstep
        cases hstep
        refine ⟨ts', .opening :: back' ++ [.closing], ?_, hs, .group hexpr⟩
        rw [happ]
        simp
      | nil =>
        simp only [step, hclose] at hstep
        cases hstep
      | negation => cases hstart _ rfl
      | factor => cases hstart _ rfl
      | summand => cases hstart _ rfl

/-- A run reads its tokens. -/
theorem reads_run {ps : List Placed} : ∀ {st st' : State} {ts : List Token}, Reads st ts →
    ps.foldlM step st = .ok st' → Reads st' (ts ++ ps.map Placed.token) := by
  induction ps with
  | nil =>
    intro st st' ts h hrun
    cases hrun
    simpa using h
  | cons p ps ih =>
    intro st st' ts h hrun
    rw [List.foldlM_cons] at hrun
    obtain ⟨mid, hstep, hrun⟩ := Outcome.bind_eq_ok.1 hrun
    simpa using ih (reads_step h hstep) hrun

/-! ### The parser and the grammar -/

/-- The parser accepts exactly the expressions, with their trees. -/
theorem ofTokens_eq_ok_iff {ps : List Placed} {t : Tree} :
    Tree.ofTokens ps = .ok t ↔ Derives .expression (ps.map Placed.token) t := by
  constructor
  · intro h
    obtain ⟨st, hrun, hfinish⟩ := Outcome.bind_eq_ok.1 h
    have hstart : Reads (.before []) [] := Pending.nil
    have hreads := reads_run hstart hrun
    cases st with
    | before stack => cases hfinish
    | after stack u =>
      obtain ⟨front, back, happ, hpending, hu⟩ := hreads
      obtain ⟨stack', t', front', back', hclose, happ', hpending', -, hexpr⟩ :=
        closeSummands_sound hpending (.primary hu)
      simp only [finish, hclose] at hfinish
      -- the parser finishes on no stack but the empty one, which stands for no token
      cases hpending' with
      | nil =>
        cases hfinish
        rw [List.nil_append] at happ happ'
        rwa [happ, happ']
      | _ => cases hfinish
  · intro h
    obtain ⟨s, u, hrun, hdone⟩ := completes_of_derives h ps rfl [] (starts_nil _)
    refine Outcome.bind_eq_ok.2 ⟨_, hrun, ?_⟩
    simp only [Completed] at hdone
    simp only [finish, hdone]

/-- Tokens are a phrase of one kind with one tree at most. -/
theorem Derives.unique {p : Phrase} {ts : List Token} {t u : Tree} (ht : Derives p ts t)
    (hu : Derives p ts u) : t = u := by
  -- both derivations take the parser through the same run
  have hps : (ts.map (Placed.mk · 0)).map Placed.token = ts := by simp [Function.comp_def]
  obtain ⟨s, v, hrun, hdone⟩ := completes_of_derives ht _ hps [] (starts_nil p)
  obtain ⟨s', v', hrun', hdone'⟩ := completes_of_derives hu _ hps [] (starts_nil p)
  obtain ⟨rfl, rfl⟩ : s = s' ∧ v = v' := by simpa using hrun.symm.trans hrun'
  cases p with
  | expression => simpa using hdone.symm.trans hdone'
  | term => simpa using hdone.symm.trans hdone'
  | unary => simpa [closeFactors] using hdone.symm.trans hdone'
  | primary => exact hdone.2.symm.trans hdone'.2

/-! ### Texts -/

/-- No phrase is without tokens. -/
theorem Derives.ne_nil {p : Phrase} {ts : List Token} {t : Tree} (h : Derives p ts t) :
    ts ≠ [] := by
  induction h with
  | number => simp
  | name => simp
  | group => simp
  | negate => simp
  | factor => simp
  | summand => simp
  | primary _ ih => exact ih
  | unary _ ih => exact ih
  | term _ ih => exact ih

/-- A text is a formula exactly when its tokens are an expression. -/
theorem parse_eq_ok_iff {s : String} {f : Formula} :
    parse s = .ok f ↔
      f.expression = s ∧ f.columns = f.tree.columns ∧
        ∃ ts, Cut s.toList ts ∧ Derives .expression ts f.tree := by
  rw [parse_eq]
  split
  · next hblank =>
    constructor
    · intro h
      cases h
    · rintro ⟨-, -, ts, hcut, hderives⟩
      have hnil := (cut_of_blanks (List.all_eq_true.1 hblank)).unique hcut
      exact absurd hnil.symm hderives.ne_nil
  · constructor
    · intro h
      obtain ⟨ps, hlex, h⟩ := Outcome.bind_eq_ok.1 h
      obtain ⟨t, ht, h⟩ := Outcome.bind_eq_ok.1 h
      cases h
      exact ⟨rfl, rfl, _, cut_of_lexFrom hlex, ofTokens_eq_ok_iff.1 ht⟩
    · rintro ⟨rfl, hcolumns, ts, hcut, hderives⟩
      obtain ⟨ps, hlex, rfl⟩ := lexFrom_of_cut hcut 0
      refine Outcome.bind_eq_ok.2 ⟨ps, hlex, Outcome.bind_eq_ok.2 ⟨f.tree, ?_, ?_⟩⟩
      · exact ofTokens_eq_ok_iff.2 hderives
      · rw [← hcolumns]
        rfl

/-- Reading a text as a formula: it succeeds exactly when the text, cut into
longest tokens with blanks between them, is an expression of the grammar, and
gives the tree of that derivation and the columns of the tree.  A text has one cut at
most and tokens one tree at most.  Any other text is a fault of the formula, and every
literal of a text reads as the double that the tree holds for it. -/
theorem parse_iff_derives (s : String) :
    (∀ f, parse s = .ok f ↔
      f.expression = s ∧ f.columns = f.tree.columns ∧
        ∃ ts, Cut s.toList ts ∧ Derives .expression ts f.tree) ∧
    (∀ ts us, Cut s.toList ts → Cut s.toList us → ts = us) ∧
    (∀ p ts t u, Derives p ts t → Derives p ts u → t = u) ∧
    ((¬ ∃ ts t, Cut s.toList ts ∧ Derives .expression ts t) ↔
      ∃ fault, Error.ofSyntax (parse s) = .error (.formula fault)) ∧
    (∀ ts l, Cut s.toList ts → .number l ∈ ts →
      Spelled.real? (String.ofList l.text) = some l.toReal) := by
  refine ⟨fun f => parse_eq_ok_iff, fun _ _ => Cut.unique, fun _ _ _ _ => Derives.unique, ?_, ?_⟩
  · constructor
    · intro h
      rcases hparse : parse s with fault | f
      · exact ⟨fault, rfl⟩
      · obtain ⟨-, -, ts, hcut, hderives⟩ := parse_eq_ok_iff.1 hparse
        exact absurd ⟨ts, f.tree, hcut, hderives⟩ h
    · rintro ⟨fault, hfault⟩ ⟨ts, t, hcut, hderives⟩
      have hparse : parse s = .ok ⟨s, t, t.columns⟩ :=
        parse_eq_ok_iff.2 ⟨rfl, rfl, ts, hcut, hderives⟩
      rw [hparse] at hfault
      cases hfault
  · intro ts l hcut hl
    exact Literal.real?_text (hcut.wellFormed _ hl)

end Gridbook.Formula
