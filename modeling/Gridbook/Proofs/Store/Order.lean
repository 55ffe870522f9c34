/-
Gridbook/Proofs/Store/Order.lean

The order of rows is strict.  Scalars of every kind are on one line, null before
numbers before texts; rows whose scalars are equal go by their places, and no
two rows with different ids have the same place.

Main statement: `ordered` puts the rows into this order (`ordered_eq_ok`), in
which there is only one way to list them (`eq_of_pairwise_lt`).
-/
import Mathlib.Data.List.Sort
import Gridbook.Proofs.Outcome
import Gridbook.Proofs.Sorting
import Gridbook.Store.Read

namespace Gridbook

/-! ### Comparisons -/

instance : Std.TransCmp Number.compare :=
  inferInstanceAs (Std.TransCmp
    (compareLex (compareOn fun n : Number => n.place.1) (compareOn fun n => n.place.2)))

instance : Std.TransCmp Store.placeCompare :=
  inferInstanceAs (Std.TransCmp
    (compareLex (compareOn fun r : Row => r.dataset)
      (compareLex (compareOn fun r => r.index) (compareOn fun r => r.id))))

namespace Native

/-- Scalars of one kind compare as their values do, others as their kinds. -/
instance : Std.TransCmp Native.compare where
  eq_swap {v w} := by
    cases v <;> cases w <;> first
      | exact (inferInstance : Std.OrientedCmp Number.compare).eq_swap
      | exact Std.OrientedOrd.eq_swap
  isLE_trans {u v w} huv hvw := by
    -- of three scalars in a row all are of one kind, or the outer two are in order
    -- by their kinds, or one of the two comparisons fails by its kinds
    cases u <;> cases v <;> cases w <;> first
      | exact (inferInstance : Std.TransCmp Number.compare).isLE_trans huv hvw
      | exact Std.TransOrd.isLE_trans huv hvw
      | rfl
      | exact absurd huv Bool.false_ne_true
      | exact absurd hvw Bool.false_ne_true

end Native

/-! ### The order of rows -/

namespace Order

/-- The scalar that orders a row.  Rows that have none are not ordered at all
(`keyed_eq_ok`). -/
def key [Reader] (column : String) (r : Row) : Native :=
  (Native.extract (Path.ofColumn column) r.fields).toOption.getD .null

/-- Comparison of scalars in the order's direction. -/
def keyCompare (o : Order) (v w : Native) : Ordering :=
  if o.descending then w.compare v else v.compare w

/-- How `ordered` says which of two scalars may stand first. -/
theorem inOrder_eq (o : Order) :
    (fun v w : Native => if o.descending then (w.compare v).isLE else (v.compare w).isLE) =
      fun v w => (o.keyCompare v w).isLE := by
  funext v w
  rw [keyCompare, apply_ite Ordering.isLE]

/-- Comparison of rows by an order: by the column's scalar in the order's
direction, and then by their places; without a column by the places alone, in
the order's direction. -/
def compare [Reader] (o : Order) (a b : Row) : Ordering :=
  match Form.given o.column with
  | none => if o.descending then Store.placeCompare b a else Store.placeCompare a b
  | some column => (o.keyCompare (key column a) (key column b)).then (Store.placeCompare a b)

instance (o : Order) : Std.TransCmp o.keyCompare := by
  unfold keyCompare
  cases o.descending with
  | false => exact inferInstanceAs (Std.TransCmp Native.compare)
  | true => exact inferInstanceAs (Std.TransCmp fun v w => Native.compare w v)

instance [Reader] (o : Order) : Std.TransCmp o.compare := by
  unfold compare
  rcases Form.given o.column with - | column
  · cases o.descending with
    | false => exact inferInstanceAs (Std.TransCmp Store.placeCompare)
    | true => exact inferInstanceAs (Std.TransCmp fun a b => Store.placeCompare b a)
  · have hkey := @transCmp_of_key _ o.keyCompare _ _ (key column)
    exact inferInstanceAs (Std.TransCmp (compareLex
      (fun a b => o.keyCompare (key column a) (key column b)) Store.placeCompare))

/-- Rows with the same place have the same id. -/
theorem id_eq_of_placeCompare {a b : Row} (h : Store.placeCompare a b = .eq) : a.id = b.id := by
  rw [Store.placeCompare, Ordering.then_eq_eq, Ordering.then_eq_eq] at h
  exact Std.LawfulEqOrd.eq_of_compare h.2.2

end Order

namespace Store

theorem pairwise_byPlace {rows : List Row} (h : (rows.map (·.id)).Nodup) :
    (byPlace rows).Pairwise fun a b => placeCompare a b = .lt := by
  have hids : ((byPlace rows).map (·.id)).Nodup :=
    ((perm_sortBy _ rows).map (·.id)).nodup_iff.2 h
  have hne := List.pairwise_map.1 hids
  refine (pairwise_isLE_sortBy rows).imp₂ (fun a b hle hne => ?_) hne
  refine (Ordering.isLE_iff_eq_lt_or_eq_eq.1 hle).resolve_right fun heq => hne ?_
  exact Order.id_eq_of_placeCompare heq

/-- Rows that are given their keys have keys, all of them. -/
theorem keyed_eq_ok [Reader] {column : String} {rows : List Row} {keyed : List (Native × Row)}
    (h : rows.mapM (withKey (Path.ofColumn column)) = .ok keyed) :
    keyed = rows.map fun r => (Order.key column r, r) := by
  have hall := Outcome.mapM_eq_ok.1 h
  induction hall with
  | nil => rfl
  | @cons r p rows keyed hp hall ih =>
    obtain ⟨v, hv, rfl⟩ := Outcome.map_eq_ok.1 hp
    rw [List.map_cons, Order.key, hv, ← ih (Outcome.mapM_eq_ok.2 hall)]
    rfl

/-- Rows in an order are these rows in this order. -/
theorem ordered_eq_ok [Reader] {o : Order} {rows out : List Row} (hids : (rows.map (·.id)).Nodup)
    (h : ordered o rows = .ok out) :
    out.Perm rows ∧ out.Pairwise fun a b => o.compare a b = .lt := by
  have hplaces := pairwise_byPlace hids
  have hperm : (byPlace rows).Perm rows := perm_sortBy _ rows
  unfold ordered at h
  unfold Order.compare
  rcases hcolumn : Form.given o.column with - | column
  · rw [hcolumn] at h
    cases h
    cases o.descending with
    | false => exact ⟨hperm, hplaces⟩
    | true => exact ⟨(List.reverse_perm _).trans hperm, List.pairwise_reverse.2 hplaces⟩
  · rw [hcolumn] at h
    obtain ⟨keyed, hkeyed, h⟩ := Outcome.bind_eq_ok.1 h
    -- the keys are a function of the rows, so the rows are sorted by it
    have hout : out = sortBy
        (fun a b => (o.keyCompare (Order.key column a) (Order.key column b)).isLE)
        (byPlace rows) := by
      cases h
      show List.map (·.2) (sortBy (fun a b : Native × Row => (fun v w : Native =>
        if o.descending then (w.compare v).isLE else (v.compare w).isLE) a.1 b.1) keyed) = _
      rw [o.inOrder_eq, keyed_eq_ok hkeyed, map_sortBy, List.map_map]
      exact List.map_id _
    rw [hout]
    have := @transCmp_of_key _ o.keyCompare _ _ (Order.key column)
    refine ⟨(perm_sortBy _ _).trans hperm, ?_⟩
    exact (pairwise_then_sortBy hplaces).imp fun h => Ordering.then_eq_lt.2 h

end Store

end Gridbook
