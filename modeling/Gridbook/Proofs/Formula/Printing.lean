/-
Gridbook/Proofs/Formula/Printing.lean

Formulas written out.  An `Expression` is a tree with the tokens of its leaves and
with extra pairs of parentheses where someone has put them.  `Expression.tokens`
writes it down: an operand stands in parentheses exactly where it binds less
tightly than its place asks for (`fitted`), so a chain of one precedence needs them
on its right only.  `Token.spell` writes tokens as characters, each with what
stands behind it.

Two literals or names never stand side by side in an expression
(`isChain_tokens`), so no blank is ever needed, and any may be there.

Main statements: what is written is the phrase that it was written for
(`derives_tokens`), with the fewest tokens that there are for its tree where no
pair is extra (`length_fitted_le`); so a formula that is written out is read back,
however it is spaced (`parse_spelled`).
-/
import Mathlib.Data.List.Chain
import Gridbook.Proofs.Formula.Checking

namespace Gridbook.Formula

/-! ### Tokens with blanks between them -/

/-- Is the token a literal or a name?  The others are one character each. -/
def Token.isWord : Token → Bool
  | number _ => true
  | name _ => true
  | _ => false

/-- The characters of tokens, each followed by what stands behind it. -/
def Token.spell (ts : List (Token × List Char)) : List Char :=
  ts.flatMap fun p => p.1.text ++ p.2

/-- Does every token end before this character? -/
def endsToken (c : Char) : Bool :=
  Text.isBlank c || (symbol? c).isSome

theorem isBlank_of_isNamePart {c : Char} (h : isNamePart c) : Text.isBlank c = false := by
  have hpart : isNameStart c = true ∨ c.isDigit = true := Bool.or_eq_true_iff.1 h
  rcases hpart with hstart | hdigit
  · exact (isDigit_isBlank_of_isNameStart hstart).2
  · have hascii : c.toNat < 128 := by
      have hle : c.toNat ≤ 57 := (of_decide_eq_true (Bool.and_eq_true_iff.1 hdigit).2 : c.val ≤ 57)
      omega
    have hall : ∀ n : Fin 128, (Char.ofNat n).isDigit → Text.isBlank (Char.ofNat n) = false := by
      decide
    have := hall ⟨c.toNat, hascii⟩
    rw [Char.ofNat_toNat] at this
    exact this hdigit

/-- A character that ends tokens goes on in none. -/
theorem not_part_of_endsToken {c : Char} (h : endsToken c) :
    isNamePart c = false ∧ Text.isDigit c = false ∧ c ≠ '.' ∧ c ≠ 'e' ∧ c ≠ 'E' := by
  have hends : Text.isBlank c = true ∨ (symbol? c).isSome = true := Bool.or_eq_true_iff.1 h
  rcases hends with hblank | hsymbol
  · refine ⟨Bool.eq_false_iff.2 fun hpart => ?_, Bool.eq_false_iff.2 fun hdigit => ?_, ?_⟩
    · rw [isBlank_of_isNamePart hpart] at hblank
      cases hblank
    · rw [Literal.isBlank_of_isDigit hdigit] at hblank
      cases hblank
    · refine ⟨?_, ?_, ?_⟩ <;> rintro rfl <;> revert hblank <;> decide
  · obtain ⟨t, ht⟩ := Option.isSome_iff_exists.1 hsymbol
    unfold symbol? at ht
    split at ht <;> first | decide | cases ht

/-- A token that stands alone starts with a character that ends tokens. -/
theorem endsToken_of_symbol {t : Token} (h : t.WellFormed) (hword : t.isWord = false) :
    ∃ c, t.text = [c] ∧ endsToken c := by
  obtain ⟨l, rfl, -⟩ | ⟨c, cs, rfl, -⟩ | ⟨c, hc⟩ := h.cases
  · cases hword
  · cases hword
  · exact ⟨c, text_of_symbol? hc, by simp [endsToken, hc]⟩

/-- A word ends where a character follows that ends it, and a character that stands
alone ends at once. -/
theorem next?_text_append {t : Token} (h : t.WellFormed) {rest : List Char}
    (hrest : t.isWord → ∀ c, rest.head? = some c → endsToken c) :
    next? (t.text ++ rest) = some (t, rest) := by
  obtain ⟨l, rfl, hl⟩ | ⟨c, cs, rfl, hc, hcs⟩ | ⟨c, hc⟩ := h.cases
  · have hscan := Literal.scan_text_append hl fun c hc =>
      (not_part_of_endsToken (hrest rfl c hc)).2
    simp only [next?, Token.text, hscan]
  · have hend : rest.takeWhile isNamePart = [] ∧ rest.dropWhile isNamePart = rest := by
      cases rest with
      | nil => exact ⟨rfl, rfl⟩
      | cons d ds => simp [(not_part_of_endsToken (hrest rfl d rfl)).1]
    rw [Token.text, List.cons_append, next?_name hc, List.takeWhile_append_of_pos hcs,
      List.dropWhile_append_of_pos hcs, hend.1, hend.2, List.append_nil]
  · rw [text_of_symbol? hc]
    exact next?_symbol hc rest

/-- Tokens that are spelled with blanks behind them are cut apart again, if no two
words touch. -/
theorem cut_spell {ts : List (Token × List Char)} (hwf : ∀ p ∈ ts, p.1.WellFormed)
    (hblank : ∀ p ∈ ts, ∀ c ∈ p.2, Text.isBlank c)
    (hapart : ts.IsChain fun p q => p.1.isWord → q.1.isWord → p.2 ≠ []) :
    Cut (Token.spell ts) (ts.map (·.1)) := by
  induction ts with
  | nil => exact .nil
  | cons p ts ih =>
    obtain ⟨hp, hts⟩ := List.forall_mem_cons.1 hwf
    obtain ⟨hgap, hgaps⟩ := List.forall_mem_cons.1 hblank
    have hcut := Cut.blanks hgap (ih hts hgaps hapart.tail)
    -- behind a word stands a blank, a token that is no word, or nothing
    have hends : p.1.isWord → ∀ c, (p.2 ++ Token.spell ts).head? = some c → endsToken c := by
      intro hword c hc
      rcases hg : p.2 with - | ⟨b, bs⟩
      · rw [hg, List.nil_append] at hc
        cases ts with
        | nil => cases hc
        | cons q ts =>
          have hq : q.1.isWord = false := by
            by_contra hq
            exact (List.isChain_cons_cons.1 hapart).1 hword (by simpa using hq) hg
          obtain ⟨d, hd, hdends⟩ := endsToken_of_symbol (hts q List.mem_cons_self) hq
          rw [Token.spell, List.flatMap_cons, hd] at hc
          cases hc
          exact hdends
      · rw [hg] at hc hgap
        cases hc
        exact Bool.or_eq_true_iff.2 (.inl (hgap _ List.mem_cons_self))
    have hlongest := (next?_eq_some_iff.1 (next?_text_append hp hends)).1
    show Cut (Token.spell (p :: ts)) (p.1 :: ts.map (·.1))
    rw [Token.spell, List.flatMap_cons, List.append_assoc]
    exact .token hlongest hcut

/-! ### Expressions -/

/-- A formula as it is written: its leaves by their tokens, with extra parentheses
where there are any. -/
inductive Expression where
  | literal (l : Literal)
  | name (cs : List Char)
  | negate (operand : Expression)
  | binary (op : Operator) (left right : Expression)
  /-- An extra pair of parentheses. -/
  | enclosed (inner : Expression)
deriving Repr

/-- How tightly a phrase of this kind binds. -/
def Phrase.rank : Phrase → Nat
  | expression => 0
  | term => 1
  | unary => 2
  | primary => 3

/-- The kind of phrase that an operator makes, which is also what it takes on its
left. -/
def Operator.kind (op : Operator) : Phrase :=
  if op.isSign then .expression else .term

/-- The kind of phrase that an operator takes on its right. -/
def Operator.rightKind (op : Operator) : Phrase :=
  if op.isSign then .term else .unary

theorem Operator.kinds_of_factor {op : Operator} (h : op.isSign = false) :
    op.kind = .term ∧ op.rightKind = .unary := by
  simp [kind, rightKind, h]

theorem Operator.kinds_of_sign {op : Operator} (h : op.isSign = true) :
    op.kind = .expression ∧ op.rightKind = .term := by
  simp [kind, rightKind, h]

/-- The tokens of a phrase of kind `q` where one of kind `p` is asked for: in
parentheses if it binds less tightly. -/
def fitted (p q : Phrase) (ts : List Token) : List Token :=
  if p.rank ≤ q.rank then ts else .opening :: ts ++ [.closing]

namespace Expression

/-- The tree, which knows nothing of parentheses and of how a literal is written. -/
def tree : Expression → Tree
  | literal l => .literal l.toReal
  | name cs => .column (String.ofList cs)
  | negate e => .negate e.tree
  | binary op l r => .binary op l.tree r.tree
  | enclosed e => e.tree

/-- The names, from left to right. -/
def names : Expression → List String
  | literal _ => []
  | name cs => [String.ofList cs]
  | negate e => e.names
  | binary _ l r => l.names ++ r.names
  | enclosed e => e.names

/-- Are the leaves tokens? -/
def WellFormed : Expression → Prop
  | literal l => (Token.number l).WellFormed
  | name cs => (Token.name cs).WellFormed
  | negate e => e.WellFormed
  | binary _ l r => l.WellFormed ∧ r.WellFormed
  | enclosed e => e.WellFormed

/-- Is no pair of parentheses extra? -/
def IsBare : Expression → Prop
  | literal _ => True
  | name _ => True
  | negate e => e.IsBare
  | binary _ l r => l.IsBare ∧ r.IsBare
  | enclosed _ => False

/-- The kind of phrase that the expression is as it stands. -/
def kind : Expression → Phrase
  | negate _ => .unary
  | binary op _ _ => op.kind
  | _ => .primary

/-- The tokens of the expression, with the parentheses that its operators ask for
and those that are extra. -/
def tokens : Expression → List Token
  | literal l => [.number l]
  | name cs => [.name cs]
  | negate e => .operator .minus :: fitted .unary e.kind e.tokens
  | binary op l r =>
    fitted op.kind l.kind l.tokens ++ .operator op :: fitted op.rightKind r.kind r.tokens
  | enclosed e => .opening :: e.tokens ++ [.closing]

theorem names_tree (e : Expression) : e.tree.names = e.names := by
  induction e with
  | literal l => rfl
  | name cs => rfl
  | negate e ih => exact ih
  | binary op l r ihl ihr => rw [tree, Tree.names, names, ihl, ihr]
  | enclosed e ih => exact ih

end Expression

/-! ### What is written is a phrase -/

/-- A phrase is one of every kind that binds less tightly. -/
theorem Derives.loosen {p q : Phrase} {ts : List Token} {t : Tree} (h : Derives q ts t)
    (hpq : p.rank ≤ q.rank) : Derives p ts t := by
  have hunary : q = .primary → Derives .unary ts t := by
    rintro rfl
    exact .primary h
  have hterm : q = .primary ∨ q = .unary → Derives .term ts t := by
    rintro (rfl | rfl)
    · exact .unary (hunary rfl)
    · exact .unary h
  have hexpression : q = .primary ∨ q = .unary ∨ q = .term → Derives .expression ts t := by
    rintro (rfl | rfl | rfl)
    · exact .term (hterm (.inl rfl))
    · exact .term (hterm (.inr rfl))
    · exact .term h
  cases p <;> cases q <;> simp_all [Phrase.rank]

theorem derives_fitted {p q : Phrase} {ts : List Token} {t : Tree} (h : Derives q ts t) :
    Derives p (fitted p q ts) t := by
  unfold fitted
  split
  · next hpq => exact h.loosen hpq
  · have hexpression : Derives .expression ts t := h.loosen (Nat.zero_le _)
    exact (Derives.group hexpression).loosen (by cases p <;> decide)

/-- An operator joins what it takes to what it makes. -/
theorem Derives.joined {op : Operator} {ts us : List Token} {l r : Tree}
    (hl : Derives op.kind ts l) (hr : Derives op.rightKind us r) :
    Derives op.kind (ts ++ .operator op :: us) (.binary op l r) := by
  rcases hop : op.isSign with - | -
  · obtain ⟨hkind, hright⟩ := Operator.kinds_of_factor hop
    rw [hkind] at hl ⊢
    rw [hright] at hr
    exact .factor hop hl hr
  · obtain ⟨hkind, hright⟩ := Operator.kinds_of_sign hop
    rw [hkind] at hl ⊢
    rw [hright] at hr
    exact .summand hop hl hr

theorem derives_tokens (e : Expression) : Derives e.kind e.tokens e.tree := by
  induction e with
  | literal l => exact .number l
  | name cs => exact .name cs
  | negate e ih => exact .negate (derives_fitted ih)
  | binary op l r ihl ihr => exact (derives_fitted ihl).joined (derives_fitted ihr)
  | enclosed e ih => exact .group (ih.loosen (Nat.zero_le _))

/-! ### Its tokens -/

theorem forall_mem_group {P : Token → Prop} (hopening : P .opening) (hclosing : P .closing)
    {ts : List Token} (h : ∀ t ∈ ts, P t) : ∀ t ∈ Token.opening :: ts ++ [.closing], P t := by
  rw [List.cons_append, List.forall_mem_cons]
  exact ⟨hopening, List.forall_mem_append.2 ⟨h, List.forall_mem_singleton.2 hclosing⟩⟩

theorem wellFormed_fitted {p q : Phrase} {ts : List Token} (h : ∀ t ∈ ts, t.WellFormed) :
    ∀ t ∈ fitted p q ts, t.WellFormed := by
  unfold fitted
  split
  · exact h
  · exact forall_mem_group trivial trivial h

/-- What is written is made of well-formed tokens. -/
theorem wellFormed_tokens {e : Expression} (h : e.WellFormed) : ∀ t ∈ e.tokens, t.WellFormed := by
  induction e with
  | literal l => exact List.forall_mem_singleton.2 h
  | name cs => exact List.forall_mem_singleton.2 h
  | negate e ih => exact List.forall_mem_cons.2 ⟨trivial, wellFormed_fitted (ih h)⟩
  | binary op l r ihl ihr =>
    refine List.forall_mem_append.2 ⟨wellFormed_fitted (ihl h.1), ?_⟩
    exact List.forall_mem_cons.2 ⟨trivial, wellFormed_fitted (ihr h.2)⟩
  | enclosed e ih => exact forall_mem_group trivial trivial (ih h)

/-! ### No word beside another -/

/-- Of two tokens side by side, one is no word. -/
def Parted (t u : Token) : Prop :=
  t.isWord = false ∨ u.isWord = false

theorem isChain_group {ts : List Token} (h : ts.IsChain Parted) :
    (Token.opening :: ts ++ [Token.closing]).IsChain Parted := by
  rw [List.cons_append, List.isChain_cons]
  refine ⟨fun t _ => .inl rfl, List.isChain_append.2 ⟨h, List.isChain_singleton _, ?_⟩⟩
  rintro t _ _ ⟨⟩
  exact .inr rfl

theorem isChain_fitted {p q : Phrase} {ts : List Token} (h : ts.IsChain Parted) :
    (fitted p q ts).IsChain Parted := by
  unfold fitted
  split
  · exact h
  · exact isChain_group h

theorem isChain_tokens (e : Expression) : e.tokens.IsChain Parted := by
  have hoperator : ∀ (op : Operator) {ts : List Token}, ts.IsChain Parted →
      (Token.operator op :: ts).IsChain Parted :=
    fun op ts h => List.isChain_cons.2 ⟨fun _ _ => .inl rfl, h⟩
  induction e with
  | literal l => exact List.isChain_singleton _
  | name cs => exact List.isChain_singleton _
  | negate e ih => exact hoperator .minus (isChain_fitted ih)
  | binary op l r ihl ihr =>
    refine List.isChain_append.2 ⟨isChain_fitted ihl, hoperator op (isChain_fitted ihr), ?_⟩
    rintro t _ _ ⟨⟩
    exact .inr rfl
  | enclosed e ih => exact isChain_group ih

/-! ### No pair that is not asked for -/

theorem length_fitted_le (p q : Phrase) (ts : List Token) :
    (fitted p q ts).length ≤ ts.length + 2 := by
  unfold fitted
  split <;> simp

theorem length_fitted_mono {p p' : Phrase} (h : p.rank ≤ p'.rank) (q : Phrase) (ts : List Token) :
    (fitted p q ts).length ≤ (fitted p' q ts).length := by
  by_cases hp' : p'.rank ≤ q.rank
  · rw [fitted, fitted, if_pos hp', if_pos (Nat.le_trans h hp')]
  · rw [fitted, fitted, if_neg hp']
    split
    · simp only [List.cons_append, List.length_cons, List.length_append]
      omega
    · exact Nat.le_refl _

theorem fitted_self (p : Phrase) (ts : List Token) : fitted p p ts = ts :=
  if_pos (Nat.le_refl _)

namespace Expression

variable {e : Expression} {op : Operator} {l r t : Tree}

theorem eq_negate_of_tree (he : e.IsBare) (h : e.tree = .negate t) :
    ∃ e', e = negate e' ∧ e'.IsBare ∧ e'.tree = t := by
  cases e with
  | negate e' =>
    cases h
    exact ⟨e', rfl, he, rfl⟩
  | enclosed e' => exact he.elim
  | _ => cases h

theorem eq_binary_of_tree (he : e.IsBare) (h : e.tree = .binary op l r) :
    ∃ a b, e = binary op a b ∧ (a.IsBare ∧ a.tree = l) ∧ b.IsBare ∧ b.tree = r := by
  cases e with
  | binary op a b =>
    cases h
    exact ⟨a, b, rfl, ⟨he.1, rfl⟩, he.2, rfl⟩
  | enclosed e' => exact he.elim
  | _ => cases h

/-- What two operands take at least, they take with the operator between them. -/
theorem length_joined_le {a b : Expression} {ts us : List Token}
    (ha : (fitted op.kind a.kind a.tokens).length ≤ ts.length)
    (hb : (fitted op.rightKind b.kind b.tokens).length ≤ us.length) :
    (fitted op.kind op.kind (binary op a b).tokens).length
      ≤ (ts ++ .operator op :: us).length := by
  rw [fitted_self, tokens]
  simp only [List.length_append, List.length_cons]
  omega

end Expression

/-- No phrase has fewer tokens than what is written for its tree. -/
theorem Derives.length_le {p : Phrase} {ts : List Token} {t : Tree} (h : Derives p ts t)
    {e : Expression} (he : e.IsBare) (htree : e.tree = t) :
    (fitted p e.kind e.tokens).length ≤ ts.length := by
  induction h generalizing e with
  | number l =>
    cases e with
    | literal m => exact Nat.le_refl 1
    | enclosed e => exact he.elim
    | _ => cases htree
  | name cs =>
    cases e with
    | name ds => exact Nat.le_refl 1
    | enclosed e => exact he.elim
    | _ => cases htree
  | @group ts t _ ih =>
    have hinner : e.tokens.length ≤ ts.length := ih he htree
    have houter := length_fitted_le .primary e.kind e.tokens
    simp only [List.cons_append, List.length_cons, List.length_append, List.length_nil]
    omega
  | primary _ ih => exact Nat.le_trans (length_fitted_mono (by decide) _ _) (ih he htree)
  | unary _ ih => exact Nat.le_trans (length_fitted_mono (by decide) _ _) (ih he htree)
  | term _ ih => exact Nat.le_trans (length_fitted_mono (by decide) _ _) (ih he htree)
  | negate _ ih =>
    obtain ⟨e', rfl, he', htree'⟩ := Expression.eq_negate_of_tree he htree
    exact Nat.succ_le_succ (ih he' htree')
  | @factor op ts us l r hop _ _ ihl ihr =>
    obtain ⟨a, b, rfl, ⟨ha, hl⟩, hb, hr⟩ := Expression.eq_binary_of_tree he htree
    obtain ⟨hkind, hright⟩ := Operator.kinds_of_factor hop
    rw [← hkind] at ihl ⊢
    exact Expression.length_joined_le (ihl ha hl) (hright ▸ ihr hb hr)
  | @summand op ts us l r hop _ _ ihl ihr =>
    obtain ⟨a, b, rfl, ⟨ha, hl⟩, hb, hr⟩ := Expression.eq_binary_of_tree he htree
    obtain ⟨hkind, hright⟩ := Operator.kinds_of_sign hop
    rw [← hkind] at ihl ⊢
    exact Expression.length_joined_le (ihl ha hl) (hright ▸ ihr hb hr)

/-! ### Reading back -/

/-- A word is followed by a token that is none, so no blank has to part the two. -/
theorem cut_expression {e : Expression} (he : e.WellFormed) {lead : List Char}
    {spelled : List (Token × List Char)} (htokens : spelled.map (·.1) = e.tokens)
    (hlead : ∀ c ∈ lead, Text.isBlank c) (hgaps : ∀ p ∈ spelled, ∀ c ∈ p.2, Text.isBlank c) :
    Cut (lead ++ Token.spell spelled) e.tokens := by
  have hwf : ∀ p ∈ spelled, p.1.WellFormed := fun p hp =>
    wellFormed_tokens he _ (htokens ▸ List.mem_map_of_mem hp)
  have hparted : spelled.IsChain fun p q => Parted p.1 q.1 :=
    (List.isChain_map _).1 (htokens ▸ isChain_tokens e)
  rw [← htokens]
  refine Cut.blanks hlead (cut_spell hwf hgaps (hparted.imp ?_))
  rintro p q (hp | hq) hp' hq'
  · exact absurd hp' (Bool.eq_false_iff.1 hp)
  · exact absurd hq' (Bool.eq_false_iff.1 hq)

/-- An expression that is written out, with the parentheses that its operators ask
for, with any extra ones, and with any blanks, is read back as its tree; and the
columns of what is read are its names.  Where no pair is extra, no text has the same
tree with fewer tokens. -/
theorem parse_spelled (e : Expression) (he : e.WellFormed) (lead : List Char)
    (spelled : List (Token × List Char)) (htokens : spelled.map (·.1) = e.tokens)
    (hlead : ∀ c ∈ lead, Text.isBlank c) (hgaps : ∀ p ∈ spelled, ∀ c ∈ p.2, Text.isBlank c) :
    let s := String.ofList (lead ++ Token.spell spelled)
    ∃ f, parse s = .ok f ∧ f.expression = s ∧ f.tree = e.tree ∧
      (∀ name, name ∈ f.columns ↔ name ∈ e.names) ∧ f.columns.Pairwise (· < ·) ∧
      (e.IsBare → ∀ s' f' ts, parse s' = .ok f' → f'.tree = e.tree → Cut s'.toList ts →
        e.tokens.length ≤ ts.length) := by
  intro s
  have hcut : Cut s.toList e.tokens := by
    rw [String.toList_ofList]
    exact cut_expression he htokens hlead hgaps
  have hderives : Derives .expression e.tokens e.tree :=
    (derives_tokens e).loosen (Nat.zero_le _)
  have hparse : parse s = .ok ⟨s, e.tree, e.tree.columns⟩ :=
    parse_eq_ok_iff.2 ⟨rfl, rfl, _, hcut, hderives⟩
  refine ⟨_, hparse, rfl, rfl, ?_, ?_, ?_⟩
  · intro name
    rw [mem_columns_iff hparse, ← e.names_tree]
  · exact Text.pairwise_sortedDistinct _
  · intro hbare s' f' ts hf' htree hts
    obtain ⟨-, -, us, hus, hderives'⟩ := parse_eq_ok_iff.1 hf'
    rw [hts.unique hus]
    exact hderives'.length_le hbare htree.symm

/-- A negated name before a product, and a group that is not asked for, in a text
with a tab and a line break. -/
theorem parse_spelled_groups :
    let half : Literal := ⟨[], ['.'], ['5'], none⟩
    let e : Expression := .binary .divide
      (.binary .times (.negate (.name ['a'])) (.binary .minus (.name ['b']) (.literal half)))
      (.enclosed (.name ['c']))
    ∃ f, parse " -a*\t(b- .5) /( c\n)" = .ok f ∧ f.tree = e.tree ∧
      ∀ name, name ∈ f.columns ↔ name ∈ ["a", "b", "c"] := by
  intro half e
  let spelled : List (Token × List Char) :=
    [(.operator .minus, []), (.name ['a'], []), (.operator .times, ['\t']), (.opening, []),
      (.name ['b'], []), (.operator .minus, [' ']), (.number half, []), (.closing, [' ']),
      (.operator .divide, []), (.opening, [' ']), (.name ['c'], ['\n']), (.closing, [])]
  have hname : ∀ c, isNameStart c → (Token.name [c]).WellFormed := fun c hc =>
    ⟨c, [], rfl, hc, nofun⟩
  have hhalf : (Token.number half).WellFormed :=
    ⟨nofun, .inr rfl, List.forall_mem_singleton.2 (by decide), nofun, nofun⟩
  have he : e.WellFormed :=
    ⟨⟨hname 'a' (by decide), hname 'b' (by decide), hhalf⟩, hname 'c' (by decide)⟩
  have hblanks : Text.isBlank '\t' ∧ Text.isBlank ' ' ∧ Text.isBlank '\n' := by decide
  have hgaps : ∀ p ∈ spelled, ∀ c ∈ p.2, Text.isBlank c := by simpa [spelled] using hblanks
  obtain ⟨f, hparse, -, htree, hcolumns, -⟩ :=
    parse_spelled e he [' '] spelled rfl (List.forall_mem_singleton.2 hblanks.2.1) hgaps
  exact ⟨f, hparse, htree, hcolumns⟩

end Gridbook.Formula
