/-
Gridbook/Proofs/Chart/Arranging.lean

What the points of stored rows are ordered by.  A stored cell is an ordinary one: storing
turns words into whole numbers, not-a-number into null, and takes the values of typed
columns out of their types.  So the points of stored rows have plain keys.

Main statements: all cells of a store are ordinary, whatever has happened
(`Reachable.isOrdinary`), and ordinary cells have plain keys if any
(`Key.isPlain_of_isOrdinary`).
-/
import Gridbook.Chart.Build
import Gridbook.Proofs.Store.Readable

namespace Gridbook

namespace Cell

/-- Is it a cell as the store gives it back? -/
def isOrdinary : Cell → Bool
  | number (.word _) => false
  | number n => !n.isNan
  | typed _ => false
  | _ => true

/-- What is written of a stored form is ordinary. -/
theorem isOrdinary_stored {c d w : Cell} (hd : c.toStored = .ok d) (hw : d.written? = some w) :
    w.isOrdinary := by
  obtain ⟨missing, hmissing, hd⟩ := Outcome.bind_eq_ok.1 hd
  cases missing with
  | true =>
    cases hd
    cases hw
    rfl
  | false =>
    cases hd
    cases c with
    | null => cases hmissing
    | bool b => cases hw; rfl
    | text s => cases hw; rfl
    | number n =>
      have hnan : n.isNan = false := Except.ok.inj hmissing
      cases n with
      | word n => cases hw; rfl
      | whole n => cases hw; rfl
      | real x =>
        cases hw
        simpa [isOrdinary] using hnan
    | typed t =>
      cases t with
      | double x =>
        have hnan : x.isNaN = false := Except.ok.inj hmissing
        cases hw
        simpa [isOrdinary, Number.isNan] using hnan
      | _ => cases hw; rfl
    | list items =>
      obtain ⟨ws, -, rfl⟩ := Option.map_eq_some_iff.1 hw
      rfl
    | object members =>
      obtain ⟨ws, -, rfl⟩ := Option.map_eq_some_iff.1 hw
      rfl

end Cell

/-! ### Stored rows -/

theorem Upload.isOrdinary_of_stores {u : Upload} {fields : List Fields} (h : u.Stores fields) :
    ∀ f ∈ fields, ∀ p ∈ f, p.2.isOrdinary := fun f hf p hp => by
  obtain ⟨cells, -, hstored⟩ := stored_of_stores h
  obtain ⟨row, -, named, hnamed, hcells⟩ := hstored f hf
  obtain ⟨q, hq, hwritten⟩ := Cell.mem_writtenMembers hnamed hp
  obtain ⟨c, -, hc⟩ := hcells q hq
  exact Cell.isOrdinary_stored hc hwritten

theorem Fields.isOrdinary_cell {fields : Fields} (h : ∀ p ∈ fields, p.2.isOrdinary)
    (column : String) : (fields.cell column).isOrdinary := by
  rw [cell]
  cases hlookup : fields.lookup column with
  | none => rfl
  | some c =>
    obtain ⟨before, rest, rfl, -⟩ := List.lookup_eq_some_iff.1 hlookup
    exact h (column, c) (List.mem_append_right before List.mem_cons_self)

/-- All cells of a store are ordinary, whatever has happened. -/
theorem Store.Reachable.isOrdinary {s : Store} (hs : s.Reachable) :
    ∀ r ∈ s.rows, ∀ p ∈ r.fields, p.2.isOrdinary := by
  refine Reachable.induct (P := fun s => ∀ r ∈ s.rows, ∀ p ∈ r.fields, p.2.isOrdinary)
    (fun r hr => absurd hr List.not_mem_nil) (fun s e ih r hr => ?_) hs
  rcases (mem_rows_change (change_after s e)).2 r hr with hr | ⟨-, -, u, fields, -, hstores, hmem⟩
  · exact ih r hr
  · exact Upload.isOrdinary_of_stores hstores r.fields hmem

/-! ### Keys -/

namespace Point

theorem Key.isPlain_of_isOrdinary {c : Cell} (h : c.isOrdinary) {k : Key}
    (hk : Key.ofCell c = .ok k) : k.isPlain := by
  unfold ofCell at hk
  split at hk
  · next n =>
    cases hk
    cases n with
    | word n => cases h
    | whole n => rfl
    | real x => exact h
  · cases h
  · obtain ⟨s, -, rfl⟩ := Outcome.map_eq_ok.1 hk
    rfl

end Point

end Gridbook
