/-
Gridbook/Sorting.lean

Stable sorting by a comparison.  Every member is inserted before the first one
that it may stand before, starting with the last member, so that members which
may stand either way keep their order.

Main statements: sorting permutes (`perm_sortBy`), puts the members in order
when the comparison is total and transitive (`pairwise_sortBy`), and keeps the
order of members that may stand either way (`filter_sortBy`).
-/
namespace Gridbook

variable {α : Type}

/-- Insert a member before the first one that it may stand before. -/
def insertBy (le : α → α → Bool) (a : α) : List α → List α
  | [] => [a]
  | b :: bs => if le a b then a :: b :: bs else b :: insertBy le a bs

/-- The members in order. -/
def sortBy (le : α → α → Bool) : List α → List α
  | [] => []
  | a :: as => insertBy le a (sortBy le as)

theorem perm_insertBy (le : α → α → Bool) (a : α) (bs : List α) :
    (insertBy le a bs).Perm (a :: bs) := by
  induction bs with
  | nil => exact List.Perm.refl _
  | cons b bs ih =>
    rw [insertBy]
    split
    · exact List.Perm.refl _
    · exact (ih.cons b).trans (List.Perm.swap a b bs)

theorem perm_sortBy (le : α → α → Bool) (as : List α) : (sortBy le as).Perm as := by
  induction as with
  | nil => exact List.Perm.refl _
  | cons a as ih => exact (perm_insertBy le a _).trans (ih.cons a)

theorem pairwise_insertBy {le : α → α → Bool} (total : ∀ a b, le a b ∨ le b a)
    (trans : ∀ a b c, le a b → le b c → le a c) (a : α) {bs : List α}
    (h : bs.Pairwise fun x y => le x y) : (insertBy le a bs).Pairwise fun x y => le x y := by
  induction bs with
  | nil => exact List.pairwise_singleton ..
  | cons b bs ih =>
    have hb := List.pairwise_cons.1 h
    rw [insertBy]
    split
    · next hab =>
      refine List.pairwise_cons.2 ⟨fun c hc => ?_, h⟩
      rcases List.mem_cons.1 hc with rfl | hc
      · exact hab
      · exact trans a b c hab (hb.1 c hc)
    · next hab =>
      refine List.pairwise_cons.2 ⟨fun c hc => ?_, ih hb.2⟩
      rcases List.mem_cons.1 ((perm_insertBy le a bs).mem_iff.1 hc) with rfl | hc
      · exact (total c b).resolve_left hab
      · exact hb.1 c hc

theorem pairwise_sortBy {le : α → α → Bool} (total : ∀ a b, le a b ∨ le b a)
    (trans : ∀ a b c, le a b → le b c → le a c) (as : List α) :
    (sortBy le as).Pairwise fun x y => le x y := by
  induction as with
  | nil => exact List.Pairwise.nil
  | cons a as ih => exact pairwise_insertBy total trans a ih

theorem filter_insertBy {le : α → α → Bool} {p : α → Bool}
    (either : ∀ a b, p a → p b → le a b) (a : α) (bs : List α) :
    (insertBy le a bs).filter p = (a :: bs).filter p := by
  induction bs with
  | nil => rfl
  | cons b bs ih =>
    rw [insertBy]
    split
    · rfl
    · next hab =>
      rw [List.filter_cons, ih, List.filter_cons, List.filter_cons, List.filter_cons]
      by_cases ha : p a <;> by_cases hb : p b <;> simp [ha, hb]
      exact absurd (either a b ha hb) hab

theorem filter_sortBy {le : α → α → Bool} {p : α → Bool}
    (either : ∀ a b, p a → p b → le a b) (as : List α) :
    (sortBy le as).filter p = as.filter p := by
  induction as with
  | nil => rfl
  | cons a as ih => rw [sortBy, filter_insertBy either, List.filter_cons, ih, ← List.filter_cons]

end Gridbook
