/-
Gridbook/Proofs/Chart/Ranking.lean

Points stand on one line by their x: numbers by their exact values, between the two
infinities, and behind all numbers everything else by its text.  A whole number and a double
are compared as the numbers they are, so that no rounding can put three of them in a circle.

Keys are ranked on this line as the cells are that they are taken from (`Key.ofCell_cases`).
What keys say of one another is where they stand on it (`Key.less_eq_rank`), and the line is
linear, so the comparison of keys is total and transitive whatever kinds meet.  An ordinary
cell is only kept from having a key where it has no text, for a whole number inside of it has
more digits than are written.

Main statements: whatever the x are, points are put in order by merging runs
(`sortByX_eq_sort`); with ordinary x, this is stable sorting along the line
(`sortByX_along_rank`).
-/
import Gridbook.Proofs.Chart.Sorting
import Gridbook.Proofs.Number.Value
import Gridbook.Proofs.Sorting.Runs

namespace Gridbook

/-! ### Comparisons that may fail -/

/-- Is a comparison, which may fail, a total preorder on a class?  It answers on all members,
and that the second one does not come before the first one is total and transitive. -/
structure TotalPreorder {α ε : Type} (less : α → α → Except ε Bool) (S : α → Prop) : Prop where
  answers : ∀ a b, S a → S b → ∃ c, less a b = .ok c
  total : ∀ a b, S a → S b → less b a = .ok false ∨ less a b = .ok false
  trans : ∀ a b c, S a → S b → S c → less b a = .ok false → less c b = .ok false →
    less c a = .ok false

/-- What decides as a total comparison is a total preorder. -/
theorem Runs.Decides.totalPreorder {α ε : Type} {less : Runs.Less α ε} {cmp : α → α → Ordering}
    {S : α → Prop} [Std.TransCmp cmp] (h : Runs.Decides less cmp S) : TotalPreorder less S := by
  have hle : ∀ {a b}, S a → S b → (less b a = .ok false ↔ (cmp a b).isLE) := fun {a b} ha hb => by
    rw [h b a hb ha, ← Runs.not_lt_iff]
    exact ⟨Except.ok.inj, congrArg Except.ok⟩
  refine ⟨fun a b ha hb => ⟨_, h a b ha hb⟩, fun a b ha hb => ?_, fun a b c ha hb hc hab hbc => ?_⟩
  · exact (isLE_total a b).imp (hle ha hb).2 (hle hb ha).2
  · exact (hle ha hc).2 (Std.TransCmp.isLE_trans ((hle ha hb).1 hab) ((hle hb hc).1 hbc))

/-! ### The line -/

namespace Cell

/-- Where a cell stands among x: a number by its exact value, and behind all numbers what is
no number by its text. -/
def rank : Cell → WithBot (WithTop ℚ) ⊕ₗ String
  | number n => toLex (.inl n.value)
  | c => toLex (.inr c.label)

/-- Has the cell a place among x?  A number has one, and what has a text. -/
def isRanked : Cell → Bool
  | number _ => true
  | c => c.hasText

end Cell

namespace Point

namespace Key

variable {k l : Key} {c : Cell}

/-- Where a key stands on the line. -/
def rank : Key → WithBot (WithTop ℚ) ⊕ₗ String
  | number n => toLex (.inl n.value)
  | double x => toLex (.inl (Real.value x))
  | text s => toLex (.inr s)

/-- An ordinary cell has a key exactly if it is ranked, and its key stands where it does. -/
theorem ofCell_cases (hc : c.isOrdinary) :
    c.isRanked = true ∧ (∃ k, ofCell c = .ok k ∧ k.isPlain ∧ k.rank = c.rank) ∨
      c.isRanked = false ∧ ofCell c = .error .badValue := by
  have hlabel : ofCell c = c.label?.map text → c.isRanked = c.hasText →
      c.rank = toLex (.inr c.label) →
      c.isRanked = true ∧ (∃ k, ofCell c = .ok k ∧ k.isPlain ∧ k.rank = c.rank) ∨
        c.isRanked = false ∧ ofCell c = .error .badValue := fun hkey hranked hrank => by
    rw [hkey, hranked, Cell.label?, hrank]
    cases c.hasText with
    | true => exact .inl ⟨rfl, .text c.label, rfl, rfl, rfl⟩
    | false => exact .inr ⟨rfl, rfl⟩
  cases c with
  | number n =>
    have hkey : ofCell (.number n) = .ok (number n) := rfl
    exact .inl ⟨rfl, number n, hkey, isPlain_of_isOrdinary hc hkey, rfl⟩
  | typed t => cases hc
  | null => exact hlabel rfl rfl rfl
  | bool b => exact hlabel rfl rfl rfl
  | text s => exact hlabel rfl rfl rfl
  | list items => exact hlabel rfl rfl rfl
  | object members => exact hlabel rfl rfl rfl

/-- A plain number is no word and not not-a-number. -/
theorem isNan_of_isPlain {n : Number} (h : (number n).isPlain) : n.isNan = false := by
  cases n with
  | word w => cases h
  | whole z => rfl
  | real x => simpa [isPlain] using h

/-- Of two numbers, or of two texts, the order on the line is their own. -/
theorem compare_inl (a b : WithBot (WithTop ℚ)) :
    Ord.compare (toLex (.inl a) : WithBot (WithTop ℚ) ⊕ₗ String) (toLex (.inl b)) =
      Ord.compare a b := by
  rw [← cmp_eq_compare, ← cmp_eq_compare]
  exact Sum.Lex.inl_strictMono.cmp_map_eq a b

theorem compare_inr (s t : String) :
    Ord.compare (toLex (.inr s) : WithBot (WithTop ℚ) ⊕ₗ String) (toLex (.inr t)) =
      Ord.compare s t := by
  rw [← cmp_eq_compare, ← cmp_eq_compare]
  exact Sum.Lex.inr_strictMono.cmp_map_eq s t

/-- Plain keys are compared by where they stand. -/
theorem compare_eq_rank (hk : k.isPlain) (hl : l.isPlain) :
    k.compare l = Ord.compare k.rank l.rank := by
  cases k with
  | double x => cases hk
  | number m =>
    cases l with
    | double x => cases hl
    | number n =>
      have hvalue := Number.compare_eq_compare_value (isNan_of_isPlain hk) (isNan_of_isPlain hl)
      exact hvalue.trans (compare_inl m.value n.value).symm
    | text t => exact (compare_lt_iff_lt.2 (Sum.Lex.inl_lt_inr _ _)).symm
  | text s =>
    cases l with
    | double x => cases hl
    | number n => exact (compare_gt_iff_gt.2 (Sum.Lex.inl_lt_inr _ _)).symm
    | text t => exact (compare_inr s t).symm

/-- Comparison of keys by where they stand. -/
def rankCompare (k l : Key) : Ordering :=
  Ord.compare k.rank l.rank

instance : Std.TransCmp rankCompare :=
  @transCmp_of_key _ Ord.compare _ inferInstance rank

/-- Plain numbers are not compared as doubles. -/
theorem lessNumber_eq_compare {m n : Number} (hm : (number m).isPlain) (hn : (number n).isPlain) :
    lessNumber m n = .ok (m.compare n == .lt) := by
  unfold lessNumber
  split
  · cases hm
  · cases hn
  · rw [isNan_of_isPlain hm, isNan_of_isPlain hn]
    rfl

/-- Of two plain keys it can always be said which one comes first: the one that stands
first. -/
theorem decides_rankCompare : Runs.Decides less rankCompare fun k => k.isPlain := by
  intro k l hk hl
  rw [rankCompare, ← compare_eq_rank hk hl]
  cases k with
  | double x => cases hk
  | number m =>
    cases l with
    | double x => cases hl
    | number n => exact lessNumber_eq_compare hk hl
    | text t => rfl
  | text s =>
    cases l with
    | double x => cases hl
    | number n => rfl
    | text t =>
      have hlt : (Ord.compare s t == .lt) = decide (s < t) := by
        rw [beq_eq_decide]
        exact decide_eq_decide.2 compare_lt_iff_lt
      exact congrArg Except.ok hlt.symm

/-- The same with the order of the line. -/
theorem less_eq_rank (hk : k.isPlain) (hl : l.isPlain) :
    k.less l = .ok (decide (k.rank < l.rank)) := by
  rw [decides_rankCompare k l hk hl, rankCompare, beq_eq_decide]
  exact congrArg Except.ok (decide_eq_decide.2 compare_lt_iff_lt)

/-- Is it the key of an ordinary cell? -/
def IsOrdinary (k : Key) : Prop :=
  ∃ c : Cell, c.isOrdinary ∧ ofCell c = .ok k

theorem IsOrdinary.isPlain (h : k.IsOrdinary) : k.isPlain := by
  obtain ⟨c, hc, hkey⟩ := h
  exact isPlain_of_isOrdinary hc hkey

/-- The key of an ordinary cell stands where the cell does. -/
theorem rank_of_ofCell (hc : c.isOrdinary) (hk : ofCell c = .ok k) : k.rank = c.rank := by
  rcases ofCell_cases hc with ⟨-, l, hl, -, hrank⟩ | ⟨-, hfault⟩
  · cases hk.symm.trans hl
    exact hrank
  · cases hk.symm.trans hfault

/-- The comparison of the keys of ordinary cells is a total preorder. -/
theorem totalPreorder_less : TotalPreorder less IsOrdinary := by
  have hdecides : Runs.Decides less rankCompare IsOrdinary := fun k l hk hl =>
    decides_rankCompare k l hk.isPlain hl.isPlain
  exact hdecides.totalPreorder

end Key

/-! ### Points along the line -/

variable {ps qs : List Point}

/-- Points are put in order by merging runs, also where their keys are plain. -/
theorem sortByX_eq_sort (ps : List Point) : sortByX ps = (do
    let keyed ← ps.mapM fun p => (Key.ofCell p.x).map fun k => (k, p)
    return (← Runs.sort (fun a b => a.1.less b.1) keyed).map (·.2)) := by
  refine Outcome.bind_congr fun keyed _ => ?_
  split
  · next hall =>
    have hplain : ∀ kp ∈ keyed, kp.1.isPlain := fun kp hkp => List.all_eq_true.1 hall kp hkp
    have : Std.TransCmp fun a b : Key × Point => a.1.rankCompare b.1 :=
      @transCmp_of_key _ Key.rankCompare _ inferInstance Prod.fst
    have hdecides : Runs.Decides (fun a b : Key × Point => a.1.less b.1)
        (fun a b => a.1.rankCompare b.1) fun kp => kp.1.isPlain :=
      fun a b ha hb => Key.decides_rankCompare a.1 b.1 ha hb
    have hsame : sortBy (fun a b => (a.1.compare b.1).isLE) keyed =
        sortWith (fun a b => a.1.rankCompare b.1) keyed :=
      sortBy_congr fun a ha b hb =>
        congrArg Ordering.isLE (Key.compare_eq_rank (hplain a ha) (hplain b hb))
    rw [Runs.sort_eq hdecides hplain, hsame]
    rfl
  · rfl

/-- Comparison of points by where their x stand. -/
def rankCompare (p q : Point) : Ordering :=
  Ord.compare p.x.rank q.x.rank

instance : Std.TransCmp rankCompare :=
  @transCmp_of_key _ Ord.compare _ inferInstance fun p : Point => p.x.rank

/-- Points whose x have places are put in order along the line. -/
theorem sortByX_of_ranked (hx : ∀ p ∈ ps, p.x.isOrdinary) (hranked : ∀ p ∈ ps, p.x.isRanked) :
    sortByX ps = .ok (sortWith rankCompare ps) := by
  have hkey : ∀ p ∈ ps, ∃ k, Key.ofCell p.x = .ok k := fun p hp => by
    rcases Key.ofCell_cases (hx p hp) with ⟨-, k, hk, -⟩ | ⟨h, -⟩
    · exact ⟨k, hk⟩
    · exact absurd ((hranked p hp).symm.trans h) (by decide)
  refine (sortByX_eq_ok hx).2 ⟨hkey, sortBy_congr fun p hp q hq => congrArg Ordering.isLE ?_⟩
  have hpkey := ofCell_eq_key (hkey p hp)
  have hqkey := ofCell_eq_key (hkey q hq)
  have hpplain := isPlain_key (hx p hp) (hkey p hp)
  have hqplain := isPlain_key (hx q hq) (hkey q hq)
  rw [rankCompare, compareX, ← Key.rank_of_ofCell (hx p hp) hpkey,
    ← Key.rank_of_ofCell (hx q hq) hqkey, ← Key.compare_eq_rank hpplain hqplain,
    Key.compare_eq_lineCompare hpplain hqplain]

/-- Where the x of one point has no place, no points are put in order. -/
theorem sortByX_of_unranked (hx : ∀ p ∈ ps, p.x.isOrdinary) {p : Point} (hp : p ∈ ps)
    (hranked : p.x.isRanked = false) : sortByX ps = .error .badValue := by
  have hcases : ∀ q ∈ ps, (∃ kq, ((Key.ofCell q.x).map fun k => (k, q)) = .ok kq) ∨
      ((Key.ofCell q.x).map fun k => (k, q)) = .error .badValue := fun q hq => by
    rcases Key.ofCell_cases (hx q hq) with ⟨-, k, hk, -⟩ | ⟨-, hfault⟩
    · exact .inl ⟨(k, q), by rw [hk]; rfl⟩
    · exact .inr (by rw [hfault]; rfl)
  have hfault : ((Key.ofCell p.x).map fun k => (k, p)) = .error .badValue := by
    rcases Key.ofCell_cases (hx p hp) with ⟨h, -⟩ | ⟨-, hfault⟩
    · exact absurd (h.symm.trans hranked) (by decide)
    · rw [hfault]
      rfl
  rw [sortByX, Outcome.mapM_eq_error_of_mem hcases hp hfault]
  rfl

/-- Points with ordinary x are put in order if all x have places on the line.  Their keys are
in a total preorder, in which they are compared by these places; the result is the stable sort
by them, and sorting it again changes nothing.  Where an x has no place, no points are put in
order. -/
theorem sortByX_along_rank (hx : ∀ p ∈ ps, p.x.isOrdinary) :
    TotalPreorder Key.less Key.IsOrdinary ∧
      (∀ c d k l, c.isOrdinary → d.isOrdinary → Key.ofCell c = .ok k → Key.ofCell d = .ok l →
        k.less l = .ok (decide (c.rank < d.rank))) ∧
      ((∀ p ∈ ps, p.x.isRanked) →
        ∃ qs, sortByX ps = .ok qs ∧ StableSort rankCompare ps qs ∧ sortByX qs = .ok qs) ∧
      ∀ p ∈ ps, p.x.isRanked = false → sortByX ps = .error .badValue := by
  refine ⟨Key.totalPreorder_less, fun c d k l hc hd hk hl => ?_, fun hranked => ?_,
    fun p hp => sortByX_of_unranked hx hp⟩
  · rw [Key.less_eq_rank (Key.isPlain_of_isOrdinary hc hk) (Key.isPlain_of_isOrdinary hd hl),
      Key.rank_of_ofCell hc hk, Key.rank_of_ofCell hd hl]
  · refine ⟨_, sortByX_of_ranked hx hranked, stableSort_sortBy ps, ?_⟩
    have hmem : ∀ q ∈ sortWith rankCompare ps, q ∈ ps := fun q => mem_sortWith.1
    rw [sortByX_of_ranked (fun q hq => hx q (hmem q hq)) fun q hq => hranked q (hmem q hq),
      sortWith_of_inOrder (inOrder_sortWith ps)]

/-- Points of all kinds: the infinities are at the ends of the numbers, a whole number stands
right behind the double that it would be rounded to, 1 and 1.0 stay as they stood, and the
others are in the order of their texts. -/
theorem sortByX_along_rank_mixed :
    let ps : List Point := [⟨.object [("a", .null)], .null, .text "a"⟩, ⟨.null, .null, .text "b"⟩,
      ⟨.number (.real (1 / 0)), .null, .text "c"⟩,
      ⟨.number (.whole (10 ^ 5000)), .null, .text "d"⟩,
      ⟨.number (.whole (2 ^ 53 + 1)), .null, .text "e"⟩,
      ⟨.number (.real 9007199254740992), .null, .text "f"⟩,
      ⟨.number (.whole 1), .null, .text "g"⟩, ⟨.number (.real 1), .null, .text "h"⟩,
      ⟨.text "1", .null, .text "i"⟩, ⟨.bool true, .null, .text "j"⟩,
      ⟨.list [.number (.whole 1)], .null, .text "k"⟩,
      ⟨.number (.real (-1 / 0)), .null, .text "l"⟩]
    (∀ p ∈ ps, p.x.isOrdinary) ∧ ∃ qs, sortByX ps = .ok qs ∧ StableSort rankCompare ps qs ∧
      sortByX qs = .ok qs ∧ qs.map (·.group.label) =
        ["l", "g", "h", "f", "e", "d", "c", "i", "b", "j", "k", "a"] := by
  intro ps
  have hx : ∀ p ∈ ps, p.x.isOrdinary := by decide +kernel
  have hranked : ∀ p ∈ ps, p.x.isRanked := by decide +kernel
  obtain ⟨-, -, hsorted, -⟩ := sortByX_along_rank hx
  obtain ⟨qs, hqs, hstable, hagain⟩ := hsorted hranked
  refine ⟨hx, qs, hqs, hstable, hagain, ?_⟩
  obtain ⟨rs, hrs, hnames⟩ : ∃ rs, sortByX ps = .ok rs ∧ rs.map (·.group.label) =
      ["l", "g", "h", "f", "e", "d", "c", "i", "b", "j", "k", "a"] :=
    Outcome.of_toOption_map (by decide +kernel)
  cases hqs.symm.trans hrs
  exact hnames

/-- A list has no text where a whole number inside of it has none, and then no points are put
in order. -/
theorem list_without_text_unsorted :
    let p : Point := ⟨.list [.number (.whole (10 ^ 4300))], .number (.real 1), .null⟩
    p.x.isOrdinary ∧ sortByX [p] = .error .badValue := by
  intro p
  have hx : ∀ q ∈ [p], q.x.isOrdinary := by decide +kernel
  have hranked : p.x.isRanked = false := by decide +kernel
  exact ⟨hx p List.mem_cons_self, sortByX_of_unranked hx List.mem_cons_self hranked⟩

end Point

end Gridbook
