/-
Gridbook/Proofs/Sorting.lean

Sorting by a comparison that is oriented and transitive.

Main statements: sorting is stable (`stableSort_sortBy`), and what stood in an
order before stays in it where the comparison makes no difference
(`pairwise_then_sortBy`), so sorting by one key after another sorts by both.  The
distinct members of a list in order are its members
(`Text.mem_sortedDistinct`), and no other list in order has these
(`Text.eq_sortedDistinct`).
-/
import Mathlib.Data.String.Basic
import Gridbook.Text.Sorted

namespace Gridbook

variable {α : Type} {cmp : α → α → Ordering}

/-- Comparison by a key. -/
theorem transCmp_of_key {β : Type} [Std.TransCmp cmp] (key : β → α) :
    Std.TransCmp fun a b => cmp (key a) (key b) where
  eq_swap := Std.OrientedCmp.eq_swap
  isLE_trans := Std.TransCmp.isLE_trans

/-- Members that may all stand either way stay where they are. -/
theorem sortBy_eq_self {le : α → α → Bool} {p : α → Bool} (either : ∀ a b, p a → p b → le a b)
    {as : List α} (h : ∀ a ∈ as, p a) : sortBy le as = as := by
  have hfilter := filter_sortBy either as
  rw [List.filter_eq_self.2 h] at hfilter
  rwa [List.filter_eq_self.2 fun a ha => h a ((perm_sortBy le as).mem_iff.1 ha)] at hfilter

theorem map_insertBy {β : Type} (le : β → β → Bool) (f : α → β) (a : α) (as : List α) :
    insertBy le (f a) (as.map f) = (insertBy (fun x y => le (f x) (f y)) a as).map f := by
  induction as with
  | nil => rfl
  | cons b as ih =>
    rw [List.map_cons, insertBy, insertBy]
    split
    · rfl
    · rw [ih, List.map_cons]

theorem map_sortBy {β : Type} (le : β → β → Bool) (f : α → β) (as : List α) :
    sortBy le (as.map f) = (sortBy (fun x y => le (f x) (f y)) as).map f := by
  induction as with
  | nil => rfl
  | cons a as ih => rw [List.map_cons, sortBy, sortBy, ih, map_insertBy]

theorem isLE_total [Std.OrientedCmp cmp] (a b : α) : (cmp a b).isLE ∨ (cmp b a).isLE := by
  cases h : cmp a b with
  | lt => exact .inl rfl
  | eq => exact .inl rfl
  | gt => exact .inr (Ordering.isLE_of_eq_lt (Std.OrientedCmp.gt_iff_lt.1 h))

theorem pairwise_isLE_sortBy [Std.TransCmp cmp] (as : List α) :
    (sortBy (fun a b => (cmp a b).isLE) as).Pairwise fun a b => (cmp a b).isLE :=
  pairwise_sortBy isLE_total (fun _ _ _ => Std.TransCmp.isLE_trans) as

/-- There is one way only to list members in a strict order. -/
theorem eq_of_pairwise_lt [Std.OrientedCmp cmp] {as bs : List α} (hperm : as.Perm bs)
    (has : as.Pairwise fun a b => cmp a b = .lt) (hbs : bs.Pairwise fun a b => cmp a b = .lt) :
    as = bs := by
  refine hperm.eq_of_pairwise (fun a b _ _ hab hba => ?_) has hbs
  exact absurd hba (Std.OrientedCmp.not_lt_of_lt hab)

/-- Is `bs` the stable sort of `as`?  It has the same members, they stand in order,
and those that compare equal to any one stand as they stood before. -/
structure StableSort (cmp : α → α → Ordering) (as bs : List α) : Prop where
  perm : bs.Perm as
  sorted : bs.Pairwise fun a b => (cmp a b).isLE
  stable : ∀ a, bs.filter (fun b => cmp a b == .eq) = as.filter fun b => cmp a b == .eq

/-- Members that compare equal to the same one may stand either way. -/
theorem isLE_of_eq_eq [Std.TransCmp cmp] {a b c : α} (hb : cmp a b = .eq) (hc : cmp a c = .eq) :
    (cmp b c).isLE :=
  Ordering.isLE_of_eq_eq (Std.TransCmp.eq_trans (Std.OrientedCmp.eq_symm hb) hc)

theorem stableSort_sortBy [Std.TransCmp cmp] (as : List α) :
    StableSort cmp as (sortBy (fun a b => (cmp a b).isLE) as) where
  perm := perm_sortBy _ as
  sorted := pairwise_isLE_sortBy as
  stable _ := filter_sortBy
    (fun _ _ hb hc => isLE_of_eq_eq (beq_iff_eq.1 hb) (beq_iff_eq.1 hc)) as

/-- Members that compare equal stand as they stood before: they are all that is
left of the list, before and after, when it is filtered for one of them. -/
theorem pairwise_then_sortBy [Std.TransCmp cmp] {R : α → α → Prop} {as : List α}
    (h : as.Pairwise R) :
    (sortBy (fun a b => (cmp a b).isLE) as).Pairwise
      fun a b => cmp a b = .lt ∨ cmp a b = .eq ∧ R a b := by
  rw [List.pairwise_iff_forall_sublist]
  intro a b hab
  have hle : (cmp a b).isLE := List.pairwise_iff_forall_sublist.1 (pairwise_isLE_sortBy as) hab
  rcases Ordering.isLE_iff_eq_lt_or_eq_eq.1 hle with hlt | heq
  · exact .inl hlt
  · refine .inr ⟨heq, ?_⟩
    -- the filter for what compares equal to `a` keeps both and commutes with sorting
    let p (x : α) : Bool := cmp a x == .eq
    have hfilter : (sortBy (fun a b => (cmp a b).isLE) as).filter p = as.filter p :=
      (stableSort_sortBy as).stable a
    have hpa : p a = true := beq_iff_eq.2 Std.ReflCmp.compare_self
    have hpb : p b = true := beq_iff_eq.2 heq
    have hab' : [a, b].Sublist (as.filter p) := by
      have hsub := hab.filter p
      rw [hfilter, List.filter_cons_of_pos hpa, List.filter_cons_of_pos hpb,
        List.filter_nil] at hsub
      exact hsub
    exact List.pairwise_iff_forall_sublist.1 h (hab'.trans List.filter_sublist)

/-! ### Distinct members in order -/

namespace Text

theorem mem_eraseReps_loop {x a : String} {as acc : List String} :
    x ∈ List.eraseRepsBy.loop (· == ·) a as acc ↔ x ∈ acc ∨ x = a ∨ x ∈ as := by
  induction as generalizing a acc with
  | nil => simp [List.eraseRepsBy.loop, or_comm]
  | cons b as ih =>
    rw [List.eraseRepsBy.loop]
    split
    · next hab =>
      -- a repetition of the last member, which is there already
      rw [ih, List.mem_cons, beq_iff_eq.1 hab, or_self_left]
    · rw [ih, List.mem_cons, List.mem_cons, or_comm (a := x = a), or_assoc]

theorem mem_sortedDistinct {x : String} {xs : List String} :
    x ∈ sortedDistinct xs ↔ x ∈ xs := by
  rw [sortedDistinct, ← (perm_sortBy (fun a b => decide (a ≤ b)) xs).mem_iff]
  cases sortBy (fun a b => decide (a ≤ b)) xs with
  | nil => rfl
  | cons a as => exact mem_eraseReps_loop.trans (by simp)

/-- What is left of a list in order, behind smaller members, is in strict order. -/
theorem pairwise_eraseReps_loop {a : String} {as acc : List String}
    (has : (a :: as).Pairwise (· ≤ ·)) (hacc : (a :: acc).Pairwise fun x y => y < x) :
    (List.eraseRepsBy.loop (· == ·) a as acc).Pairwise (· < ·) := by
  induction as generalizing a acc with
  | nil =>
    rw [List.eraseRepsBy.loop, List.pairwise_reverse]
    exact hacc
  | cons b as ih =>
    obtain ⟨ha, has⟩ := List.pairwise_cons.1 has
    rw [List.eraseRepsBy.loop]
    split
    · next hab =>
      rw [beq_iff_eq] at hab
      subst hab
      exact ih has hacc
    · next hab =>
      have hlt : a < b := lt_of_le_of_ne (ha b List.mem_cons_self) (by simpa using hab)
      refine ih has (List.pairwise_cons.2 ⟨fun x hx => ?_, hacc⟩)
      rcases List.mem_cons.1 hx with rfl | hx
      · exact hlt
      · exact lt_trans ((List.pairwise_cons.1 hacc).1 x hx) hlt

theorem pairwise_sortedDistinct (xs : List String) : (sortedDistinct xs).Pairwise (· < ·) := by
  have hsorted : (sortBy (fun a b => decide (a ≤ b)) xs).Pairwise (· ≤ ·) := by
    refine (pairwise_sortBy ?_ ?_ xs).imp of_decide_eq_true
    · intro a b
      simpa using le_total a b
    · intro a b c
      simpa using le_trans
  unfold sortedDistinct
  cases hxs : sortBy (fun a b => decide (a ≤ b)) xs with
  | nil => exact List.Pairwise.nil
  | cons a as => exact pairwise_eraseReps_loop (hxs ▸ hsorted) (List.pairwise_singleton _ _)

/-- Lists in increasing order are determined by their members. -/
theorem eq_sortedDistinct {xs ys : List String} (hys : ys.Pairwise (· < ·))
    (h : ∀ x, x ∈ ys ↔ x ∈ xs) : ys = sortedDistinct xs := by
  have hxs := pairwise_sortedDistinct xs
  refine List.Perm.eq_of_pairwise (fun a b _ _ hab hba => absurd hab (lt_asymm hba)) hys hxs ?_
  refine (List.perm_ext_iff_of_nodup (hys.imp ne_of_lt) (hxs.imp ne_of_lt)).2 fun x => ?_
  rw [h, mem_sortedDistinct]

theorem sortedDistinct_congr {xs ys : List String} (h : ∀ x, x ∈ xs ↔ x ∈ ys) :
    sortedDistinct xs = sortedDistinct ys :=
  eq_sortedDistinct (pairwise_sortedDistinct xs) fun x => mem_sortedDistinct.trans (h x)

theorem mem_insertDistinct {x y : String} {ys : List String} :
    x ∈ insertDistinct y ys ↔ x = y ∨ x ∈ ys := by
  induction ys with
  | nil => rw [insertDistinct, List.mem_cons]
  | cons z zs ih =>
    rw [insertDistinct]
    split
    · rw [List.mem_cons]
    · split
      · next heq => rw [heq, List.mem_cons, or_self_left]
      · rw [List.mem_cons, ih, List.mem_cons, or_left_comm]

theorem pairwise_insertDistinct {y : String} {ys : List String} (h : ys.Pairwise (· < ·)) :
    (insertDistinct y ys).Pairwise (· < ·) := by
  induction ys with
  | nil => exact List.pairwise_singleton _ y
  | cons z zs ih =>
    obtain ⟨hz, hzs⟩ := List.pairwise_cons.1 h
    rw [insertDistinct]
    split
    · next hlt =>
      refine List.pairwise_cons.2 ⟨List.forall_mem_cons.2 ⟨hlt, fun w hw => ?_⟩, h⟩
      exact lt_trans hlt (hz w hw)
    · next hle =>
      split
      · exact h
      · next hne =>
        have hgt : z < y := lt_of_le_of_ne (not_lt.1 hle) (Ne.symm hne)
        refine List.pairwise_cons.2 ⟨fun w hw => ?_, ih hzs⟩
        rcases mem_insertDistinct.1 hw with rfl | hw
        · exact hgt
        · exact hz w hw

end Text

end Gridbook
