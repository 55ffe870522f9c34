/-
Gridbook/Proofs/Sorting/Alike.lean

Lists that sort alike.  Sorting keeps members that compare equal as they stand, and puts all
others where their comparison says.  So it does not matter how two lists are mixed as long as
the members that compare equal to any one stand in both in the same order; and a list in order
is its own sorted form.  This is what a way of sorting is measured by: each of its steps may
move what does not compare equal, and in the end the list is in order.

Main statements: lists that sort alike and are in order are the same
(`SortAlike.eq_of_pairwise`), a list is sorted by its parts where none of the first part comes
behind the second one (`sortWith_append`), and two parts may change places where no member of
one compares equal to one of the other (`sortAlike_swap`).
-/
import Gridbook.Proofs.Sorting

namespace Gridbook

variable {α : Type} {cmp : α → α → Ordering} {as bs cs ds : List α}

/-- Is no member before one that comes before it? -/
abbrev InOrder (cmp : α → α → Ordering) (as : List α) : Prop :=
  as.Pairwise fun a b => (cmp a b).isLE

/-- The members in the order of a comparison. -/
def sortWith (cmp : α → α → Ordering) (as : List α) : List α :=
  sortBy (fun a b => (cmp a b).isLE) as

/-- In a list in order no member comes behind a later one. -/
theorem isLE_getElem [Std.TransCmp cmp] (h : InOrder cmp as) {i j : Nat} (hij : i ≤ j)
    (hj : j < as.length) : (cmp (as.get ⟨i, Nat.lt_of_le_of_lt hij hj⟩) as[j]).isLE := by
  rcases Nat.lt_or_eq_of_le hij with hlt | rfl
  · exact List.pairwise_iff_getElem.1 h i j _ hj hlt
  · exact Ordering.isLE_of_eq_eq Std.ReflCmp.compare_self

/-- Do the members that compare equal to any one stand in both lists in the same order? -/
def SortAlike (cmp : α → α → Ordering) (as bs : List α) : Prop :=
  ∀ a, as.filter (fun b => cmp a b == .eq) = bs.filter fun b => cmp a b == .eq

namespace SortAlike

theorem refl (as : List α) : SortAlike cmp as as :=
  fun _ => rfl

theorem symm (h : SortAlike cmp as bs) : SortAlike cmp bs as :=
  fun a => (h a).symm

theorem trans (h : SortAlike cmp as bs) (h' : SortAlike cmp bs cs) : SortAlike cmp as cs :=
  fun a => (h a).trans (h' a)

theorem append (h : SortAlike cmp as bs) (h' : SortAlike cmp cs ds) :
    SortAlike cmp (as ++ cs) (bs ++ ds) := fun a => by
  rw [List.filter_append, List.filter_append, h a, h' a]

end SortAlike

/-- What comes before another one does not compare equal to it. -/
theorem ne_eq_of_lt [Std.TransCmp cmp] {a b : α} (h : cmp a b = .lt) : cmp b a ≠ .eq := by
  intro heq
  rw [Std.OrientedCmp.eq_symm heq] at h
  cases h

/-- Parts of which no members compare equal may change places. -/
theorem sortAlike_swap [Std.TransCmp cmp] (h : ∀ a ∈ as, ∀ b ∈ bs, cmp a b ≠ .eq) :
    SortAlike cmp (as ++ bs) (bs ++ as) := fun c => by
  -- at most one of the parts has members that compare equal to `c`
  have hnone : as.filter (fun a => cmp c a == .eq) = [] ∨
      bs.filter (fun b => cmp c b == .eq) = [] := by
    by_contra hboth
    obtain ⟨hsome, hsome'⟩ := not_or.1 hboth
    obtain ⟨a, ha⟩ := List.exists_mem_of_ne_nil _ hsome
    obtain ⟨b, hb⟩ := List.exists_mem_of_ne_nil _ hsome'
    obtain ⟨ha, hca⟩ := List.mem_filter.1 ha
    obtain ⟨hb, hcb⟩ := List.mem_filter.1 hb
    exact h a ha b hb
      (Std.TransCmp.eq_trans (Std.OrientedCmp.eq_symm (beq_iff_eq.1 hca)) (beq_iff_eq.1 hcb))
  rw [List.filter_append, List.filter_append]
  rcases hnone with hnone | hnone
  · rw [hnone, List.nil_append, List.append_nil]
  · rw [hnone, List.nil_append, List.append_nil]

theorem sortAlike_sortWith [Std.TransCmp cmp] (as : List α) :
    SortAlike cmp (sortWith cmp as) as :=
  (stableSort_sortBy as).stable

theorem inOrder_sortWith [Std.TransCmp cmp] (as : List α) : InOrder cmp (sortWith cmp as) :=
  pairwise_isLE_sortBy as

theorem perm_sortWith (as : List α) : (sortWith cmp as).Perm as :=
  perm_sortBy _ as

theorem mem_sortWith {a : α} : a ∈ sortWith cmp as ↔ a ∈ as :=
  (perm_sortWith as).mem_iff

/-- Lists in order that sort alike have the same first members: each comes not behind the
other one, so they compare equal. -/
theorem SortAlike.eq_of_pairwise [Std.TransCmp cmp] (h : SortAlike cmp as bs)
    (has : InOrder cmp as) (hbs : InOrder cmp bs) : as = bs := by
  have hself : ∀ a : α, (cmp a a == .eq) = true := fun a => beq_iff_eq.2 Std.ReflCmp.compare_self
  have hmem : ∀ {as bs : List α}, SortAlike cmp as bs → ∀ a ∈ as, a ∈ bs := fun h a ha =>
    (List.mem_filter.1 (h a ▸ List.mem_filter.2 ⟨ha, hself a⟩)).1
  induction as generalizing bs with
  | nil =>
    refine (List.eq_nil_iff_forall_not_mem.2 fun b hb => ?_).symm
    exact List.not_mem_nil (hmem h.symm b hb)
  | cons a as ih =>
    cases bs with
    | nil => exact absurd (hmem h a List.mem_cons_self) List.not_mem_nil
    | cons b bs =>
      have hle : (cmp a b).isLE := by
        rcases List.mem_cons.1 (hmem h.symm b List.mem_cons_self) with rfl | hb
        · exact Ordering.isLE_of_eq_eq Std.ReflCmp.compare_self
        · exact List.rel_of_pairwise_cons has hb
      have hge : (cmp b a).isLE := by
        rcases List.mem_cons.1 (hmem h a List.mem_cons_self) with rfl | ha
        · exact Ordering.isLE_of_eq_eq Std.ReflCmp.compare_self
        · exact List.rel_of_pairwise_cons hbs ha
      -- so both heads are the first of what compares equal to `a`
      have heq : (cmp a b == .eq) = true :=
        beq_iff_eq.2 (Std.OrientedCmp.isLE_antisymm hle hge)
      have hhead := h a
      rw [List.filter_cons, if_pos (hself a), List.filter_cons, if_pos heq] at hhead
      obtain ⟨rfl, -⟩ := List.cons.inj hhead
      -- without the heads, which are in the same filters, the rest sorts alike
      have htail : SortAlike cmp as bs := fun c => by
        have hc := h c
        rw [List.filter_cons, List.filter_cons] at hc
        split at hc
        · exact (List.cons.inj hc).2
        · exact hc
      rw [ih htail has.of_cons hbs.of_cons]

/-- A list in order that sorts like another one is its sorted form. -/
theorem SortAlike.eq_sortWith [Std.TransCmp cmp] (h : SortAlike cmp as bs)
    (has : InOrder cmp as) : as = sortWith cmp bs :=
  (h.trans (sortAlike_sortWith bs).symm).eq_of_pairwise has (inOrder_sortWith bs)

theorem SortAlike.sortWith_eq [Std.TransCmp cmp] (h : SortAlike cmp as bs) :
    sortWith cmp as = sortWith cmp bs :=
  ((sortAlike_sortWith as).trans h).eq_sortWith (inOrder_sortWith as)

theorem sortWith_of_inOrder [Std.TransCmp cmp] (h : InOrder cmp as) : sortWith cmp as = as :=
  ((SortAlike.refl as).eq_sortWith h).symm

/-- Where no member of the first part comes behind one of the second part, each part is sorted
by itself. -/
theorem sortWith_append [Std.TransCmp cmp] (h : ∀ a ∈ as, ∀ b ∈ bs, (cmp a b).isLE) :
    sortWith cmp (as ++ bs) = sortWith cmp as ++ sortWith cmp bs := by
  refine (SortAlike.eq_sortWith ((sortAlike_sortWith as).append (sortAlike_sortWith bs)) ?_).symm
  refine List.pairwise_append.2 ⟨inOrder_sortWith as, inOrder_sortWith bs, fun a ha b hb => ?_⟩
  exact h a (mem_sortWith.1 ha) b (mem_sortWith.1 hb)

/-- Where all of the second part comes before the first part, it is sorted to its front. -/
theorem sortWith_append_swap [Std.TransCmp cmp] (h : ∀ a ∈ as, ∀ b ∈ bs, cmp b a = .lt) :
    sortWith cmp (as ++ bs) = sortWith cmp bs ++ sortWith cmp as := by
  have hswap : SortAlike cmp (as ++ bs) (bs ++ as) :=
    sortAlike_swap fun a ha b hb => ne_eq_of_lt (h a ha b hb)
  rw [hswap.sortWith_eq]
  exact sortWith_append fun b hb a ha => Ordering.isLE_of_eq_lt (h a ha b hb)

/-- What is in order and comes not behind the rest stays at the front. -/
theorem sortWith_front [Std.TransCmp cmp] (has : InOrder cmp as)
    (h : ∀ a ∈ as, ∀ b ∈ bs, (cmp a b).isLE) : sortWith cmp (as ++ bs) = as ++ sortWith cmp bs := by
  rw [sortWith_append h, sortWith_of_inOrder has]

/-- What is in order and behind which the rest does not come stays at the back. -/
theorem sortWith_back [Std.TransCmp cmp] (hbs : InOrder cmp bs)
    (h : ∀ a ∈ as, ∀ b ∈ bs, (cmp a b).isLE) : sortWith cmp (as ++ bs) = sortWith cmp as ++ bs := by
  rw [sortWith_append h, sortWith_of_inOrder hbs]

/-- Of two parts in order, what of the first one comes not behind the second one stays at the
front, and what of the second one comes not before the first one at the back. -/
theorem sortWith_between [Std.TransCmp cmp] (h : InOrder cmp (as ++ bs))
    (h' : InOrder cmp (cs ++ ds)) (hfront : ∀ a ∈ as, ∀ c ∈ cs ++ ds, (cmp a c).isLE)
    (hback : ∀ b ∈ as ++ bs, ∀ d ∈ ds, (cmp b d).isLE) :
    sortWith cmp ((as ++ bs) ++ (cs ++ ds)) = as ++ sortWith cmp (bs ++ cs) ++ ds := by
  obtain ⟨has, -, habs⟩ := List.pairwise_append.1 h
  obtain ⟨-, hds, hcds⟩ := List.pairwise_append.1 h'
  have hinner : sortWith cmp ((bs ++ cs) ++ ds) = sortWith cmp (bs ++ cs) ++ ds :=
    sortWith_back hds fun x hx d hd => by
      rcases List.mem_append.1 hx with hx | hx
      · exact hback x (List.mem_append_right as hx) d hd
      · exact hcds x hx d hd
  rw [List.append_assoc, sortWith_front has, ← List.append_assoc bs, hinner, List.append_assoc]
  intro a ha x hx
  rcases List.mem_append.1 hx with hx | hx
  · exact habs a ha x hx
  · exact hfront a ha x hx

/-- What comes before the part in front of it may be taken to the front. -/
theorem sortWith_pull [Std.TransCmp cmp] (has : InOrder cmp as)
    (hbs : ∀ a ∈ as, ∀ b ∈ bs, cmp a b = .lt) (hcs : ∀ a ∈ as, ∀ c ∈ cs, (cmp a c).isLE) :
    sortWith cmp (bs ++ (as ++ cs)) = as ++ sortWith cmp (bs ++ cs) := by
  have hswap : SortAlike cmp (bs ++ as) (as ++ bs) :=
    sortAlike_swap fun b hb a ha => ne_eq_of_lt (hbs a ha b hb)
  rw [← List.append_assoc, (hswap.append (.refl cs)).sortWith_eq, List.append_assoc]
  refine sortWith_front has fun a ha x hx => ?_
  rcases List.mem_append.1 hx with hx | hx
  · exact Ordering.isLE_of_eq_lt (hbs a ha x hx)
  · exact hcs a ha x hx

/-- What the part behind it comes before may be taken to the back. -/
theorem sortWith_push [Std.TransCmp cmp] (hbs : InOrder cmp bs)
    (hcs : ∀ b ∈ bs, ∀ c ∈ cs, cmp c b = .lt) (has : ∀ a ∈ as, ∀ b ∈ bs, (cmp a b).isLE) :
    sortWith cmp ((as ++ bs) ++ cs) = sortWith cmp (as ++ cs) ++ bs := by
  have hswap : SortAlike cmp (bs ++ cs) (cs ++ bs) :=
    sortAlike_swap fun b hb c hc => ne_eq_of_lt (hcs b hb c hc)
  rw [List.append_assoc, ((SortAlike.refl as).append hswap).sortWith_eq, ← List.append_assoc]
  refine sortWith_back hbs fun x hx b hb => ?_
  rcases List.mem_append.1 hx with hx | hx
  · exact has x hx b hb
  · exact Ordering.isLE_of_eq_lt (hcs b hb x hx)

/-- A member that stands last is sorted to its place in what is in order in front of it. -/
theorem sortWith_insert [Std.TransCmp cmp] {a : α} (h : InOrder cmp (as ++ bs))
    (has : ∀ b ∈ as, (cmp b a).isLE) (hbs : ∀ b ∈ bs, cmp a b = .lt) :
    sortWith cmp ((as ++ bs) ++ [a]) = as ++ [a] ++ bs := by
  obtain ⟨hasOrder, hbsOrder, hbetween⟩ := List.pairwise_append.1 h
  have hfront : InOrder cmp (as ++ [a]) :=
    List.pairwise_append.2 ⟨hasOrder, List.pairwise_singleton _ _, fun b hb c hc => by
      rw [List.mem_singleton.1 hc]
      exact has b hb⟩
  rw [sortWith_push hbsOrder _ hbetween, sortWith_of_inOrder hfront]
  intro b hb c hc
  rw [List.mem_singleton.1 hc]
  exact hbs b hb

/-- A list that goes down all the way is turned around. -/
theorem sortWith_of_descending [Std.TransCmp cmp] (h : as.Pairwise fun a b => cmp b a = .lt) :
    sortWith cmp as = as.reverse := by
  induction h with
  | nil => rfl
  | @cons a as ha _ ih =>
    have hsingle : sortWith cmp [a] = [a] := rfl
    rw [← List.singleton_append, sortWith_append_swap, ih, hsingle, List.singleton_append,
      List.reverse_cons]
    intro b hb c hc
    rw [List.mem_singleton.1 hb]
    exact ha c hc

end Gridbook
