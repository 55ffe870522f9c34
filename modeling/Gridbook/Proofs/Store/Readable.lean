/-
Gridbook/Proofs/Store/Readable.lean

Rows that can be read again.  What a cell becomes when it is stored has a strict
text form if the cell is finite at every depth, or is missing as a whole and so
becomes null; nothing checks that it is.  A table whose cells are all of this
kind leaves no row behind that cannot be looked into.

Main statements: a stored cell is as strict as the cell was (`wellFormed_written`);
the stored rows of a tame table can be read (`readable_of_stores`), and so can all
rows of an owner, whatever has happened, if the owner's tables have been tame
(`Presentable.run`).
-/
import Gridbook.Cell.Kind
import Gridbook.Proofs.Store.Integrity
import Gridbook.Proofs.Store.Lookup

namespace Gridbook

/-! ### Cells -/

namespace Cell

mutual

/-- Is every double in the cell finite? -/
def isStrict : Cell → Bool
  | number (.real x) => Real.isFinite x
  | typed (.double x) => Real.isFinite x
  | list items => areStrict items
  | object members => membersStrict members
  | _ => true

def areStrict : List Cell → Bool
  | [] => true
  | c :: cs => isStrict c && areStrict cs

def membersStrict : List (String × Cell) → Bool
  | [] => true
  | (_, c) :: ms => isStrict c && membersStrict ms

end

/-- Is the cell no number beyond the doubles? -/
def isWithin (c : Cell) : Bool :=
  match c.plain with
  | number n => n.toReal?.isSome
  | _ => true

/-- Can a row with this cell be read again?  A missing value is stored as null;
any other must be finite at every depth, and within the doubles itself. -/
def Tame (c : Cell) : Prop :=
  c.missing? 0 = .ok true ∨ c.isStrict ∧ c.isWithin

theorem membersStrict_iff {ms : List (String × Cell)} :
    membersStrict ms ↔ ∀ m ∈ ms, m.2.isStrict := by
  induction ms with
  | nil => exact ⟨fun _ m hm => absurd hm List.not_mem_nil, fun _ => rfl⟩
  | cons m ms ih => rw [membersStrict, Bool.and_eq_true, ih, List.forall_mem_cons]

mutual

/-- What a cell becomes when it is written has a strict text form exactly if the
cell is finite at every depth. -/
theorem wellFormed_written (c : Cell) {w : Cell} (h : c.written? = some w) :
    Native.wellFormed w = c.isStrict := by
  match c with
  | null => cases h; rfl
  | bool b => cases h; rfl
  | number (.whole n) => cases h; rfl
  | number (.word n) => cases h
  | number (.real x) => cases h; rfl
  | text s => cases h; rfl
  | list items =>
    rw [written?] at h
    obtain ⟨ws, hws, rfl⟩ := Option.map_eq_some_iff.1 h
    exact wellFormed_writtenItems items hws
  | object members =>
    rw [written?] at h
    obtain ⟨ws, hws, rfl⟩ := Option.map_eq_some_iff.1 h
    exact wellFormed_writtenMembers members hws
  | typed (.date d) => cases h
  | typed (.instant t) => cases h
  | typed .noTime => cases h
  | typed (.bit b) => cases h
  | typed (.double x) => cases h; rfl
  | typed (.string s) => cases h; rfl

theorem wellFormed_writtenItems (cs : List Cell) {ws : List Cell} (h : writtenItems? cs = some ws) :
    Native.wellFormedItems ws = areStrict cs := by
  match cs with
  | [] => cases h; rfl
  | c :: cs =>
    rw [writtenItems?] at h
    obtain ⟨w, hw, h⟩ := Option.bind_eq_some_iff.1 h
    obtain ⟨ws, hws, h⟩ := Option.bind_eq_some_iff.1 h
    cases h
    rw [Native.wellFormedItems, areStrict, wellFormed_written c hw, wellFormed_writtenItems cs hws]

theorem wellFormed_writtenMembers (ms : List (String × Cell)) {ws : List (String × Cell)}
    (h : writtenMembers? ms = some ws) : Native.wellFormedMembers ws = membersStrict ms := by
  match ms with
  | [] => cases h; rfl
  | (k, c) :: ms =>
    rw [writtenMembers?] at h
    obtain ⟨w, hw, h⟩ := Option.bind_eq_some_iff.1 h
    obtain ⟨ws, hws, h⟩ := Option.bind_eq_some_iff.1 h
    cases h
    rw [Native.wellFormedMembers, membersStrict, wellFormed_written c hw,
      wellFormed_writtenMembers ms hws]

end

/-- A cell is no further beyond the doubles when it is written. -/
theorem isWithin_written {c w : Cell} (h : c.written? = some w) : w.isWithin = c.isWithin := by
  cases c with
  | null => cases h; rfl
  | bool b => cases h; rfl
  | number n => cases n <;> cases h <;> rfl
  | text s => cases h; rfl
  | list items =>
    rw [written?] at h
    obtain ⟨ws, -, rfl⟩ := Option.map_eq_some_iff.1 h
    rfl
  | object members =>
    rw [written?] at h
    obtain ⟨ws, -, rfl⟩ := Option.map_eq_some_iff.1 h
    rfl
  | typed t => cases t <;> cases h <;> rfl

/-- The stored form of a tame cell is finite and within the doubles. -/
theorem Tame.toStored {c d : Cell} (h : c.Tame) (hd : c.toStored = .ok d) :
    d.isStrict ∧ d.isWithin := by
  obtain ⟨b, hb, hd⟩ := Outcome.bind_eq_ok.1 hd
  cases b with
  | true =>
    cases hd
    exact ⟨rfl, rfl⟩
  | false =>
    have hc := h.resolve_left fun hmissing => by cases hb.symm.trans hmissing
    cases hd
    cases c with
    | typed t =>
      cases t with
      | double x => exact hc
      | date d => exact ⟨rfl, rfl⟩
      | instant t => exact ⟨rfl, rfl⟩
      | noTime => exact ⟨rfl, rfl⟩
      | bit b => exact ⟨rfl, rfl⟩
      | string s => exact ⟨rfl, rfl⟩
    | number n =>
      cases n with
      | word w => exact ⟨rfl, hc.2⟩
      | whole n => exact hc
      | real x => exact hc
    | _ => exact hc

theorem mem_writtenMembers {ms ws : List (String × Cell)} (h : writtenMembers? ms = some ws)
    {p : String × Cell} (hp : p ∈ ws) : ∃ q ∈ ms, q.2.written? = some p.2 := by
  induction ms generalizing ws with
  | nil => cases h; cases hp
  | cons q ms ih =>
    rw [writtenMembers?] at h
    obtain ⟨w, hw, h⟩ := Option.bind_eq_some_iff.1 h
    obtain ⟨ws', hws, h⟩ := Option.bind_eq_some_iff.1 h
    cases h
    rcases List.mem_cons.1 hp with rfl | hp
    · exact ⟨q, List.mem_cons_self, hw⟩
    · obtain ⟨q', hq', hp⟩ := ih hws hp
      exact ⟨q', List.mem_cons_of_mem q hq', hp⟩

end Cell

/-! ### Rows and tables -/

/-- Can a row with these fields be read?  It can be looked into, and none of its
values is beyond the doubles. -/
structure Fields.Readable (fields : Fields) : Prop where
  wellFormed : Native.wellFormedMembers fields
  within : ∀ p ∈ fields, p.2.isWithin

/-- Are the cells of the table tame, in the types of their columns? -/
def Upload.Tame (u : Upload) : Prop :=
  ∀ cells, u.cells = .ok cells → ∀ row ∈ cells, ∀ c ∈ row, c.Tame

theorem Upload.mem_byLabel {pairs : List (Cell × Cell)} {p : Cell × Cell}
    (h : p ∈ byLabel pairs) : ∃ q ∈ pairs, q.2 = p.2 := by
  induction pairs generalizing p with
  | nil => cases h
  | cons q pairs ih =>
    rw [byLabel] at h
    rcases List.mem_cons.1 h with rfl | h
    · -- the last cell under an equal label, or the cell itself
      cases hlast : (pairs.filter fun p => sameLabel q.1 p.1).getLast? with
      | none => exact ⟨q, List.mem_cons_self, rfl⟩
      | some q' =>
        have hq' := (List.mem_filter.1 (List.mem_of_getLast? hlast)).1
        exact ⟨q', List.mem_cons_of_mem q hq', rfl⟩
    · obtain ⟨q', hq', hp⟩ := ih (List.mem_filter.1 h).1
      exact ⟨q', List.mem_cons_of_mem q hq', hp⟩

/-- Every field of a stored row is the written form of the stored form of a cell. -/
theorem Upload.stored_of_stores {u : Upload} {fields : List Fields} (h : u.Stores fields) :
    ∃ cells, u.cells = .ok cells ∧ ∀ f ∈ fields, ∃ row ∈ cells, ∃ named,
      Cell.writtenMembers? named = some f ∧ ∀ p ∈ named, ∃ c ∈ row, c.toStored = .ok p.2 := by
  obtain ⟨cells, raw, hcells, hraw, hwritten⟩ := h
  refine ⟨cells, hcells, fun f hf => ?_⟩
  obtain ⟨named, hnamed, hf⟩ := Outcome.exists_of_mem_mapM_some hwritten hf
  rw [Upload.fields] at hraw
  split at hraw
  · cases hraw
    cases hnamed
  obtain ⟨row, hrow, hfields⟩ := Outcome.exists_of_mem_mapM hraw hnamed
  obtain ⟨pairs, hpairs, h⟩ := Outcome.bind_eq_ok.1 hfields
  cases h
  refine ⟨row, hrow, _, hf, fun p hp => ?_⟩
  obtain ⟨q, hq, hstored⟩ := Outcome.exists_of_mem_mapM hpairs (Named.mem_of_mem_ofPairs hp)
  obtain ⟨d, hd, rfl⟩ := Outcome.map_eq_ok.1 hstored
  obtain ⟨q', hq', hcell⟩ := mem_byLabel hq
  exact ⟨q.2, hcell ▸ (List.of_mem_zip hq').2, hd⟩

/-- The rows that a tame table is stored with can be read. -/
theorem Upload.readable_of_stores {u : Upload} (hu : u.Tame) {fields : List Fields}
    (h : u.Stores fields) : ∀ f ∈ fields, f.Readable := by
  obtain ⟨cells, hcells, hstored⟩ := stored_of_stores h
  intro f hf
  obtain ⟨row, hrow, named, hf, hnamed⟩ := hstored f hf
  have htame : ∀ p ∈ named, p.2.isStrict ∧ p.2.isWithin := fun p hp => by
    obtain ⟨c, hc, hstored⟩ := hnamed p hp
    exact (hu cells hcells row hrow c hc).toStored hstored
  refine ⟨?_, fun p hp => ?_⟩
  · rw [Cell.wellFormed_writtenMembers _ hf]
    exact Cell.membersStrict_iff.2 fun p hp => (htame p hp).1
  · obtain ⟨q, hq, hwritten⟩ := Cell.mem_writtenMembers hf hp
    rw [Cell.isWithin_written hwritten]
    exact (htame q hq).2

/-! ### Stores -/

/-- Has the table plain columns? -/
def Upload.PlainColumns (u : Upload) : Prop :=
  ∀ names, u.columns = .ok names → ∀ name ∈ names, Path.isPlain name

/-- Is it, if it stores a table for this owner, a tame one with plain columns? -/
def Event.Tame (owner : Ident) : Event → Prop
  | .ingest o _ _ u => o = owner → u.Tame ∧ u.PlainColumns
  | _ => True

namespace Store

variable {s s' : Store} {owner : Ident}

/-- Can an owner's rows be read, and have the owner's datasets plain columns? -/
structure Presentable (s : Store) (owner : Ident) : Prop where
  tables : s.dropped = []
  rows : ∀ r ∈ s.rows, owner.names r.owner → r.fields.Readable
  columns : ∀ d ∈ s.datasets, owner.names d.owner → ∀ c ∈ d.columns, Path.isPlain c

theorem fields_of_mem_newRows {owner : Int} {dataset first time : Nat} {fields : List Fields}
    {r : Row} (h : r ∈ newRows owner dataset first time fields) : r.fields ∈ fields := by
  obtain ⟨i, hi, rfl⟩ := List.mem_mapIdx.1 h
  exact List.getElem_mem hi

/-- No event drops a table, and a row is either an old one or one that its owner
has just stored. -/
theorem mem_rows_change {e : Event} (h : Change s e s') :
    s'.dropped = s.dropped ∧ ∀ r ∈ s'.rows, r ∈ s.rows ∨ ∃ name filename u fields,
      e = .ingest (some r.owner) name filename u ∧ u.Stores fields ∧ r.fields ∈ fields := by
  cases h with
  | nothing => exact ⟨rfl, fun r hr => .inl hr⟩
  | @ingested name filename u d fields _ hstores =>
    refine ⟨rfl, fun r hr => ?_⟩
    rcases List.mem_append.1 hr with hr | hr
    · exact .inl hr
    · refine .inr ⟨name, filename, u, fields, ?_, hstores, fields_of_mem_newRows hr⟩
      rw [(mem_newRows hr).1]
  | deleted => exact ⟨rfl, fun r hr => .inl (List.mem_of_mem_filter hr)⟩
  | saved => exact ⟨rfl, fun r hr => .inl hr⟩
  | savedDeleted => exact ⟨rfl, fun r hr => .inl hr⟩
  | clockSet => exact ⟨rfl, fun r hr => .inl hr⟩

theorem Reachable.hasTable (h : s.Reachable) (t : Table) : s.hasTable t := by
  have hdropped : s.dropped = [] :=
    h.induct (P := fun s => s.dropped = []) rfl fun s e hs =>
      (mem_rows_change (change_after s e)).1.trans hs
  rw [Store.hasTable, hdropped]
  rfl

/-- The dataset of a table that is stored has the table's shape and its names. -/
theorem ingest_dataset {name filename : Option String} {u : Upload} {d : Dataset}
    (h : s.ingest owner name filename u = (.ok d, s')) :
    name = some d.name ∧ filename = d.filename ∧ u.columns = .ok d.columns ∧
      d.rowCount = u.rows.length ∧ d.columnCount = d.columns.length := by
  have h := commit_ok h
  obtain ⟨cells, -, h⟩ := Outcome.bind_eq_ok.1 h
  obtain ⟨columns, hcolumns, h⟩ := Outcome.bind_eq_ok.1 h
  obtain ⟨_, -, h⟩ := Outcome.bind_eq_ok.1 h
  obtain ⟨o, -, h⟩ := Outcome.bind_eq_ok.1 h
  obtain ⟨n, hn, h⟩ := Outcome.bind_eq_ok.1 h
  obtain ⟨raw, -, h⟩ := Outcome.bind_eq_ok.1 h
  obtain ⟨fields, -, h⟩ := Outcome.bind_eq_ok.1 h
  cases h
  exact ⟨present_eq_ok.1 (during_eq_ok.1 hn), rfl, ofConversion_eq_ok.1 hcolumns, rfl, rfl⟩

/-- Only a table that is stored can bring a new dataset. -/
theorem mem_datasets_change {e : Event} (h : Change s e s') {d : Dataset} (hd : d ∈ s'.datasets) :
    d ∈ s.datasets ∨ ∃ owner name filename u, e = .ingest owner name filename u := by
  cases h with
  | nothing => exact .inl hd
  | ingested => exact .inr ⟨_, _, _, _, rfl⟩
  | deleted => exact .inl (List.mem_of_mem_filter hd)
  | saved => exact .inl hd
  | savedDeleted => exact .inl hd
  | clockSet => exact .inl hd

/-- A dataset is either an old one or one that its owner has just stored, under
the table's column names. -/
theorem mem_datasets_after {e : Event} {d : Dataset} (hd : d ∈ (s.after e).datasets) :
    d ∈ s.datasets ∨ ∃ name filename u,
      e = .ingest (some d.owner) name filename u ∧ u.columns = .ok d.columns := by
  rcases mem_datasets_change (change_after s e) hd with hd | ⟨owner, name, filename, u, rfl⟩
  · exact .inl hd
  rcases hs : s.ingest owner name filename u with ⟨x | new, s'⟩
  · rw [Store.after, hs, commit_error hs] at hd
    exact .inl hd
  · obtain ⟨rfl, -, fields, -, hs'⟩ := ingest_eq_ok hs
    rw [Store.after, hs, hs'] at hd
    rcases List.mem_append.1 hd with hd | hd
    · exact .inl hd
    · rw [List.mem_singleton.1 hd]
      exact .inr ⟨name, filename, u, rfl, (ingest_dataset hs).2.2.1⟩

theorem Presentable.after (h : s.Presentable owner) {e : Event} (he : e.Tame owner) :
    (s.after e).Presentable owner := by
  obtain ⟨hdropped, hrows⟩ := mem_rows_change (change_after s e)
  refine ⟨hdropped.trans h.tables, fun r hr hown => ?_, fun d hd hown => ?_⟩
  · rcases hrows r hr with hr | ⟨name, filename, u, fields, rfl, hstores, hmem⟩
    · exact h.rows r hr hown
    · exact Upload.readable_of_stores (he (names_iff.1 hown).symm).1 hstores _ hmem
  · rcases mem_datasets_after hd with hd | ⟨name, filename, u, rfl, hcolumns⟩
    · exact h.columns d hd hown
    · exact (he (names_iff.1 hown).symm).2 _ hcolumns

theorem presentable_empty (owner : Ident) : empty.Presentable owner where
  tables := rfl
  rows := fun _ h => absurd h List.not_mem_nil
  columns := fun _ h => absurd h List.not_mem_nil

theorem Presentable.run (h : s.Presentable owner) {events : List Event}
    (he : ∀ e ∈ events, e.Tame owner) : (s.run events).Presentable owner := by
  induction events generalizing s with
  | nil => exact h
  | cons e events ih =>
    exact ih (h.after (he e List.mem_cons_self)) fun e' he' => he e' (List.mem_cons_of_mem e he')

end Store

end Gridbook
