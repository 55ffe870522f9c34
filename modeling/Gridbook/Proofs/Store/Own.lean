/-
Gridbook/Proofs/Store/Own.lean

What of a store is an owner's.  Two stores are the same for an owner when they
hold the same of theirs, whatever else they hold; `only` leaves an owner's things
and nothing else.

Main statement: what others do, with whatever ids, leaves a store the same for an
owner (`SameFor.run`).
-/
import Gridbook.Proofs.Store.Integrity

namespace Gridbook

/-- Who asks for the write; nobody sets the clock. -/
def Event.caller : Event → Option Ident
  | .ingest owner .. => some owner
  | .deleteDataset owner _ => some owner
  | .save owner .. => some owner
  | .deleteSaved owner _ => some owner
  | .setClock _ => none

theorem Event.Saves.caller {e : Event} {c : SavedColumn} (h : e.Saves c) :
    e.caller = some (some c.owner) := by
  cases e with
  | save => exact congrArg some h.1
  | ingest => cases h
  | deleteDataset => cases h
  | deleteSaved => cases h
  | setClock => cases h

namespace Store

variable {owner : Ident} {s s' s'' : Store}

/-- The store with an owner's things only. -/
def only (s : Store) (owner : Ident) : Store :=
  s.restrict fun _ o => owner.names o

/-- Have the stores the same tables, and is the same in them an owner's? -/
structure SameFor (owner : Ident) (s s' : Store) : Prop where
  dropped : s.dropped = s'.dropped
  datasets : (s.only owner).datasets = (s'.only owner).datasets
  rows : (s.only owner).rows = (s'.only owner).rows
  saved : (s.only owner).saved = (s'.only owner).saved

theorem SameFor.refl (owner : Ident) (s : Store) : SameFor owner s s :=
  ⟨rfl, rfl, rfl, rfl⟩

theorem SameFor.trans (h : SameFor owner s s') (h' : SameFor owner s' s'') :
    SameFor owner s s'' :=
  ⟨h.dropped.trans h'.dropped, h.datasets.trans h'.datasets, h.rows.trans h'.rows,
    h.saved.trans h'.saved⟩

theorem sameFor_only (owner : Ident) (s : Store) : SameFor owner s (s.only owner) where
  dropped := rfl
  datasets := by simp [only, restrict, List.filter_filter]
  rows := by simp [only, restrict, List.filter_filter]
  saved := by simp [only, restrict, List.filter_filter]

/-! ### What others do -/

section Tables

/- A table of any kind, whose members have owners. -/
variable {α : Type} (of : α → Int) {other : Ident}

theorem names_eq_false (h : owner ≠ other) {n : Int} (hn : owner.names n) :
    other.names n = false := by
  rw [Bool.eq_false_iff, Ne, names_iff]
  rintro rfl
  exact h (names_iff.1 hn)

/-- What another adds to a table is not the owner's. -/
theorem filter_append_others (as : List α) {new : List α}
    (h : ∀ a ∈ new, owner ≠ some (of a)) :
    (as ++ new).filter (fun a => owner.names (of a)) = as.filter fun a => owner.names (of a) := by
  have hnone : new.filter (fun a => owner.names (of a)) = [] := by
    rw [List.filter_eq_nil_iff]
    intro a ha hown
    exact h a ha (names_iff.1 hown)
  rw [List.filter_append, hnone, List.append_nil]

/-- What another deletes from a table is not the owner's. -/
theorem filter_filter_others (h : owner ≠ other) (as : List α) (p : α → Bool) :
    (as.filter fun a => !(p a && other.names (of a))).filter (fun a => owner.names (of a)) =
      as.filter fun a => owner.names (of a) := by
  rw [List.filter_filter]
  refine List.filter_congr fun a _ => ?_
  cases hown : owner.names (of a) with
  | false => rfl
  | true => rw [names_eq_false h hown, Bool.and_false, Bool.not_false, Bool.and_self]

end Tables

/-- What another does with any ids leaves the store the same for the owner. -/
theorem SameFor.change {e : Event} (h : Change s e s') (he : e.caller ≠ some owner) :
    SameFor owner s s' := by
  cases h with
  | nothing => exact SameFor.refl owner s
  | @ingested _ _ _ d fields =>
    have hother : owner ≠ some d.owner := fun h => he (congrArg some h.symm)
    refine ⟨rfl, (filter_append_others Dataset.owner s.datasets ?_).symm,
      (filter_append_others Row.owner s.rows ?_).symm, rfl⟩
    · intro a ha
      rw [List.mem_singleton.1 ha]
      exact hother
    · intro r hr
      rw [(mem_newRows hr).1]
      exact hother
  | deleted other dataset =>
    have hother : owner ≠ other := fun h => he (congrArg some h.symm)
    exact ⟨rfl, (filter_filter_others Dataset.owner hother s.datasets _).symm,
      (filter_filter_others Row.owner hother s.rows _).symm,
      (filter_filter_others SavedColumn.owner hother s.saved _).symm⟩
  | @saved _ c _ hsaves =>
    have hother : owner ≠ some c.owner := fun h => he (hsaves.caller.trans (congrArg some h.symm))
    refine ⟨rfl, rfl, rfl, (filter_append_others SavedColumn.owner s.saved ?_).symm⟩
    intro a ha
    rw [List.mem_singleton.1 ha]
    exact hother
  | savedDeleted other column =>
    have hother : owner ≠ other := fun h => he (congrArg some h.symm)
    exact ⟨rfl, rfl, rfl, (filter_filter_others SavedColumn.owner hother s.saved _).symm⟩
  | clockSet => exact ⟨rfl, rfl, rfl, rfl⟩

theorem SameFor.run (s : Store) (events : List Event)
    (he : ∀ e ∈ events, e.caller ≠ some owner) : SameFor owner s (s.run events) := by
  induction events generalizing s with
  | nil => exact SameFor.refl owner s
  | cons e events ih =>
    have hfirst := SameFor.change (change_after s e) (he e List.mem_cons_self)
    exact hfirst.trans (ih (s.after e) fun e' he' => he e' (List.mem_cons_of_mem e he'))

theorem Integral.run (hs : s.Integral) (events : List Event) : (s.run events).Integral := by
  induction events generalizing s with
  | nil => exact hs
  | cons e events ih => exact ih (hs.change (change_after s e))

end Store

end Gridbook
