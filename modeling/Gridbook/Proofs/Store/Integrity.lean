/-
Gridbook/Proofs/Store/Integrity.lean

Nothing in the store is left hanging.  A store is integral when every row and
every saved column belongs to a dataset of its owner, ids are unique in each
table, and every saved column has a name and a formula that reads.  The store
itself checks none of this: it follows from what the writes do, in whatever
order they come (`Reachable.integral`).

An id is given again once the dataset that had it is gone.  The new dataset has
its own rows and nothing else all the same: `reachable_integrity` follows it
through all later events up to its deletion.
-/
import Mathlib.Data.List.Nodup
import Gridbook.Proofs.Formula.Grammar
import Gridbook.Proofs.Store.History
import Gridbook.Proofs.Text.Blank

namespace Gridbook.Store

variable {s s' : Store} {d : Dataset}

/-- What holds of the tables of a store, although no table checks it. -/
structure Integral (s : Store) : Prop where
  rowOwned : ∀ r ∈ s.rows, ∃ d ∈ s.datasets, d.id = r.dataset ∧ d.owner = r.owner
  savedOwned : ∀ c ∈ s.saved, ∃ d ∈ s.datasets, d.id = c.dataset ∧ d.owner = c.owner
  datasetIds : (s.datasets.map (·.id)).Nodup
  rowIds : (s.rows.map (·.id)).Nodup
  savedIds : (s.saved.map (·.id)).Nodup
  formula : ∀ c ∈ s.saved, ∃ f, Formula.parse c.formula = .ok f
  name : ∀ c ∈ s.saved, c.name ≠ "" ∧ Text.strip c.name = c.name

/-! ### New ids -/

theorem le_foldl_max (ids : List Nat) :
    ∀ n, n ≤ ids.foldl max n ∧ ∀ i ∈ ids, i ≤ ids.foldl max n := by
  induction ids with
  | nil => exact fun n => ⟨Nat.le_refl n, fun i hi => absurd hi List.not_mem_nil⟩
  | cons j ids ih =>
    intro n
    obtain ⟨hstart, hids⟩ := ih (max n j)
    rw [List.foldl_cons]
    refine ⟨Nat.le_trans (Nat.le_max_left n j) hstart, fun i hi => ?_⟩
    rcases List.mem_cons.1 hi with rfl | hi
    · exact Nat.le_trans (Nat.le_max_right n i) hstart
    · exact hids i hi

/-- A new id is above all the ids in use. -/
theorem lt_nextId {ids : List Nat} {i : Nat} (h : i ∈ ids) : i < nextId ids :=
  Nat.lt_succ_of_le ((le_foldl_max ids 0).2 i h)

theorem nodup_append_nextId {ids : List Nat} (h : ids.Nodup) : (ids ++ [nextId ids]).Nodup := by
  refine List.nodup_append.2 ⟨h, List.nodup_singleton _, fun i hi j hj => ?_⟩
  rw [List.mem_singleton.1 hj]
  exact Nat.ne_of_lt (lt_nextId hi)

theorem mem_newRows {owner : Int} {dataset first time : Nat} {fields : List Fields} {r : Row}
    (h : r ∈ newRows owner dataset first time fields) : r.owner = owner ∧ r.dataset = dataset := by
  obtain ⟨i, hi, rfl⟩ := List.mem_mapIdx.1 h
  exact ⟨rfl, rfl⟩

theorem map_id_newRows (owner : Int) (dataset first time : Nat) (fields : List Fields) :
    (newRows owner dataset first time fields).map (·.id) = List.range' first fields.length := by
  refine List.ext_getElem ?_ fun i hi _ => ?_
  · simp [newRows]
  · simp [newRows]

/-! ### Every event keeps the store integral -/

theorem integral_empty : empty.Integral where
  rowOwned := fun _ h => absurd h List.not_mem_nil
  savedOwned := fun _ h => absurd h List.not_mem_nil
  datasetIds := List.nodup_nil
  rowIds := List.nodup_nil
  savedIds := List.nodup_nil
  formula := fun _ h => absurd h List.not_mem_nil
  name := fun _ h => absurd h List.not_mem_nil

theorem Integral.ingested (hs : s.Integral) (hid : d.id = nextId (s.datasets.map (·.id)))
    (fields : List Fields) (time clock : Nat) :
    Integral { s with
      datasets := s.datasets ++ [d]
      rows := s.rows ++ newRows d.owner d.id (nextId (s.rows.map (·.id))) time fields
      clock := clock } := by
  have hstays : ∀ e ∈ s.datasets, e ∈ s.datasets ++ [d] := fun e => List.mem_append_left [d]
  refine { hs with rowOwned := ?_, savedOwned := ?_, datasetIds := ?_, rowIds := ?_ }
  · intro r hr
    rcases List.mem_append.1 hr with hr | hr
    · obtain ⟨e, he, howns⟩ := hs.rowOwned r hr
      exact ⟨e, hstays e he, howns⟩
    · obtain ⟨howner, hdataset⟩ := mem_newRows hr
      exact ⟨d, List.mem_append_right _ (List.mem_singleton_self d), hdataset.symm, howner.symm⟩
  · intro c hc
    obtain ⟨e, he, howns⟩ := hs.savedOwned c hc
    exact ⟨e, hstays e he, howns⟩
  · show ((s.datasets ++ [d]).map (·.id)).Nodup
    rw [List.map_append, List.map_singleton, hid]
    exact nodup_append_nextId hs.datasetIds
  · show ((s.rows ++ _).map (·.id)).Nodup
    rw [List.map_append, map_id_newRows]
    refine List.nodup_append.2 ⟨hs.rowIds, List.nodup_range', fun i hi j hj => ?_⟩
    -- the new ids count up from the next one
    have hj := (List.mem_range'_1.1 hj).1
    exact Nat.ne_of_lt (Nat.lt_of_lt_of_le (lt_nextId hi) hj)

/-- Rows and saved columns go along with their dataset. -/
theorem Integral.restrict (hs : s.Integral) (keep : Nat → Int → Bool) :
    (s.restrict keep).Integral where
  rowOwned := by
    intro r hr
    obtain ⟨hr, hkept⟩ := List.mem_filter.1 hr
    obtain ⟨d, hd, hdataset, howner⟩ := hs.rowOwned r hr
    exact ⟨d, List.mem_filter.2 ⟨hd, by rw [hdataset, howner]; exact hkept⟩, hdataset, howner⟩
  savedOwned := by
    intro c hc
    obtain ⟨hc, hkept⟩ := List.mem_filter.1 hc
    obtain ⟨d, hd, hdataset, howner⟩ := hs.savedOwned c hc
    exact ⟨d, List.mem_filter.2 ⟨hd, by rw [hdataset, howner]; exact hkept⟩, hdataset, howner⟩
  datasetIds := hs.datasetIds.sublist (List.filter_sublist.map _)
  rowIds := hs.rowIds.sublist (List.filter_sublist.map _)
  savedIds := hs.savedIds.sublist (List.filter_sublist.map _)
  formula := fun c hc => hs.formula c (List.mem_of_mem_filter hc)
  name := fun c hc => hs.name c (List.mem_of_mem_filter hc)

theorem parse_of_ofCell {c : Cell} {f : Formula} (h : Formula.ofCell c = .ok f) :
    Formula.parse f.expression = .ok f := by
  unfold Formula.ofCell at h
  split at h
  · rw [(Formula.parse_eq_ok_iff.1 h).1]
    exact h
  · cases h

/-- A column that is saved has a formula that reads and a trimmed name. -/
theorem wellFormed_of_saves {e : Event} {c : SavedColumn} (h : e.Saves c) :
    (∃ f, Formula.parse c.formula = .ok f) ∧ Text.strip c.name = c.name := by
  cases e with
  | save owner dataset name formula =>
    obtain ⟨-, -, hname, f, hf, hexpr⟩ := h
    refine ⟨⟨f, ?_⟩, by rw [hname, Text.strip_strip]⟩
    rw [← hexpr]
    exact parse_of_ofCell hf
  | ingest => cases h
  | deleteDataset => cases h
  | deleteSaved => cases h
  | setClock => cases h

theorem Integral.saved (hs : s.Integral) {e : Event} {c : SavedColumn}
    (howned : ∃ d ∈ s.datasets, d.id = c.dataset ∧ d.owner = c.owner) (hsaves : e.Saves c)
    (hname : c.name ≠ "") (hid : c.id = nextId (s.saved.map (·.id))) (time : Nat) :
    Integral { s with saved := s.saved ++ [c], clock := time } := by
  -- what is new in the table of saved columns is `c` alone
  have hnew : ∀ {P : SavedColumn → Prop}, (∀ b ∈ s.saved, P b) → P c →
      ∀ b ∈ s.saved ++ [c], P b := by
    intro P hold hc b hb
    rcases List.mem_append.1 hb with hb | hb
    · exact hold b hb
    · rw [List.mem_singleton.1 hb]
      exact hc
  obtain ⟨hformula, htrimmed⟩ := wellFormed_of_saves hsaves
  refine { hs with savedOwned := ?_, savedIds := ?_, formula := ?_, name := ?_ }
  · exact hnew hs.savedOwned howned
  · show ((s.saved ++ [c]).map (·.id)).Nodup
    rw [List.map_append, List.map_singleton, hid]
    exact nodup_append_nextId hs.savedIds
  · exact hnew hs.formula hformula
  · exact hnew hs.name ⟨hname, htrimmed⟩

theorem Integral.withoutSaved (hs : s.Integral) (owner column : Ident) :
    (s.withoutSaved owner column).Integral :=
  { hs with
    savedOwned := fun c hc => hs.savedOwned c (List.mem_of_mem_filter hc)
    savedIds := hs.savedIds.sublist (List.filter_sublist.map _)
    formula := fun c hc => hs.formula c (List.mem_of_mem_filter hc)
    name := fun c hc => hs.name c (List.mem_of_mem_filter hc) }

theorem Integral.change (hs : s.Integral) {e : Event} (h : Change s e s') : s'.Integral := by
  cases h with
  | nothing => exact hs
  | ingested hid => exact hs.ingested hid _ _ _
  | deleted owner dataset => exact hs.restrict _
  | saved howned hsaves hname hid => exact hs.saved howned hsaves hname hid _
  | savedDeleted owner column => exact hs.withoutSaved owner column
  | clockSet => exact { hs with }

theorem Reachable.integral (h : s.Reachable) : s.Integral :=
  h.induct integral_empty fun s e hs => hs.change (change_after s e)

/-! ### What belongs to a dataset -/

/-- The rows of the dataset with this id. -/
def rowsOf (s : Store) (id : Nat) : List Row :=
  s.rows.filter (·.dataset = id)

theorem Integral.eq_of_id_eq (hs : s.Integral) {d e : Dataset} (hd : d ∈ s.datasets)
    (he : e ∈ s.datasets) (h : d.id = e.id) : d = e :=
  List.inj_on_of_nodup_map hs.datasetIds hd he h

/-- A dataset is the one that its owner finds by its id. -/
theorem Integral.find?_dataset (hs : s.Integral) (hd : d ∈ s.datasets) {owner : Ident}
    (hown : owner.names d.owner) :
    s.datasets.find? (fun e => Ident.names (some (d.id : Int)) e.id && owner.names e.owner) =
      some d := by
  let asked (e : Dataset) : Bool := Ident.names (some (d.id : Int)) e.id && owner.names e.owner
  have hasked : asked d = true := Bool.and_eq_true_iff.2 ⟨names_iff.2 rfl, hown⟩
  obtain ⟨e, he⟩ : ∃ e, s.datasets.find? asked = some e :=
    Option.isSome_iff_exists.1 (List.find?_isSome.2 ⟨d, hd, hasked⟩)
  have henames : asked e = true := List.find?_some he
  have hid := names_iff.1 (Bool.and_eq_true_iff.1 henames).1
  rw [← hs.eq_of_id_eq hd (List.mem_of_find?_eq_some he) (Int.ofNat.inj (Option.some.inj hid))] at he
  exact he

/-- All rows with a dataset's id have its owner. -/
theorem Integral.owner_eq (hs : s.Integral) (hd : d ∈ s.datasets) {r : Row} (hr : r ∈ s.rows)
    (h : r.dataset = d.id) : r.owner = d.owner := by
  obtain ⟨e, he, hdataset, howner⟩ := hs.rowOwned r hr
  rw [← howner, hs.eq_of_id_eq he hd (hdataset.trans h)]

/-- What stands in the store of a dataset that it has not got yet: nothing. -/
theorem Integral.rowsOf_eq_nil (hs : s.Integral) {id : Nat} (h : ∀ d ∈ s.datasets, d.id ≠ id) :
    s.rowsOf id = [] := by
  refine List.filter_eq_nil_iff.2 fun r hr hid => ?_
  obtain ⟨d, hd, hdataset, -⟩ := hs.rowOwned r hr
  exact h d hd (hdataset.trans (of_decide_eq_true hid))

/-- A new dataset adds rows under its own id only. -/
theorem filter_newRows {owner : Int} {dataset first time id : Nat} (fields : List Fields)
    (h : id ≠ dataset) : (newRows owner dataset first time fields).filter (·.dataset = id) = [] := by
  refine List.filter_eq_nil_iff.2 fun r hr hid => ?_
  exact h ((of_decide_eq_true hid).symm.trans (mem_newRows hr).2)

/-- A dataset that is kept keeps its rows. -/
theorem rowsOf_restrict (hs : s.Integral) (hd : d ∈ s.datasets) {keep : Nat → Int → Bool}
    (h : keep d.id d.owner = true) : (s.restrict keep).rowsOf d.id = s.rowsOf d.id := by
  show (s.rows.filter _).filter _ = s.rows.filter _
  rw [List.filter_filter]
  refine List.filter_congr fun r hr => ?_
  -- a row under the dataset's id has its owner too, so it is kept like the dataset
  by_cases hid : r.dataset = d.id
  · rw [hid, hs.owner_eq hd hr hid, h, Bool.and_true]
  · rw [decide_eq_false hid, Bool.false_and]

/-- An event that does not delete a dataset keeps it and its rows, and gives it
no saved column but the one that the event saves. -/
theorem dataset_change (hs : s.Integral) (hd : d ∈ s.datasets) {e : Event} (h : Change s e s')
    (he : ¬ e.Deletes d) :
    d ∈ s'.datasets ∧ s'.rowsOf d.id = s.rowsOf d.id ∧
      ∀ c ∈ s'.saved, c.dataset = d.id → c ∈ s.saved ∨ e.Saves c := by
  cases h with
  | nothing => exact ⟨hd, rfl, fun c hc _ => .inl hc⟩
  | @ingested _ _ _ new _ hid =>
    have hother : d.id ≠ new.id := by
      rw [Ne, hid]
      exact Nat.ne_of_lt (lt_nextId (List.mem_map_of_mem hd))
    refine ⟨List.mem_append_left _ hd, ?_, fun c hc _ => .inl hc⟩
    show (s.rows ++ _).filter _ = s.rowsOf d.id
    rw [List.filter_append, filter_newRows _ hother, List.append_nil]
    rfl
  | deleted owner dataset =>
    -- the event does not delete `d`, so it names another id or another owner
    have hkept : (!(dataset.names d.id && owner.names d.owner)) = true := by
      rw [Bool.not_eq_true', Bool.eq_false_iff, Ne, Bool.and_eq_true, names_iff, names_iff]
      exact fun hnamed => he ⟨hnamed.2, hnamed.1⟩
    refine ⟨List.mem_filter.2 ⟨hd, hkept⟩, rowsOf_restrict hs hd hkept, ?_⟩
    exact fun c hc _ => .inl (List.mem_of_mem_filter hc)
  | saved _ hsaves =>
    refine ⟨hd, rfl, fun c hc _ => ?_⟩
    rcases List.mem_append.1 hc with hc | hc
    · exact .inl hc
    · rw [List.mem_singleton.1 hc]
      exact .inr hsaves
  | savedDeleted => exact ⟨hd, rfl, fun c hc _ => .inl (List.mem_of_mem_filter hc)⟩
  | clockSet => exact ⟨hd, rfl, fun c hc _ => .inl hc⟩

/-- Up to its deletion a dataset keeps its rows, and the saved columns that it
gets are saved on the way. -/
theorem dataset_run (hs : s.Integral) (hd : d ∈ s.datasets) (events : List Event)
    (hkept : ∀ e ∈ events, ¬ e.Deletes d) :
    (s.run events).rowsOf d.id = s.rowsOf d.id ∧
      ∀ c ∈ (s.run events).saved, c.dataset = d.id → c ∈ s.saved ∨ ∃ e ∈ events, e.Saves c := by
  induction events generalizing s with
  | nil => exact ⟨rfl, fun c hc _ => .inl hc⟩
  | cons e events ih =>
    have hchange := change_after s e
    obtain ⟨hd', hrows, hsaved⟩ := dataset_change hs hd hchange (hkept e List.mem_cons_self)
    obtain ⟨hrows', hsaved'⟩ := ih (hs.change hchange) hd'
      fun e' he' => hkept e' (List.mem_cons_of_mem e he')
    refine ⟨hrows'.trans hrows, fun c hc hid => ?_⟩
    rcases hsaved' c hc hid with hc | ⟨e', he', hsaves⟩
    · rcases hsaved c hc hid with hc | hsaves
      · exact .inl hc
      · exact .inr ⟨e, List.mem_cons_self, hsaves⟩
    · exact .inr ⟨e', List.mem_cons_of_mem e he', hsaves⟩

/-- Every reachable store is integral.  A table that is stored in it as a dataset
gets an id that no dataset has, be it new or that of a dataset deleted before;
and whatever happens up to its deletion, its rows are the uploaded ones, and its
saved columns have been saved since. -/
theorem reachable_integrity (h : s.Reachable) :
    s.Integral ∧
    ∀ owner name filename u d s₁, s.ingest owner name filename u = (.ok d, s₁) →
      d.id = nextId (s.datasets.map (·.id)) ∧ d.id ∉ s.datasets.map (·.id) ∧
      ∃ fields, u.Stores fields ∧ ∀ events, (∀ e ∈ events, ¬ e.Deletes d) →
        (s₁.run events).rowsOf d.id =
          newRows d.owner d.id (nextId (s.rows.map (·.id))) (s.clock + 1) fields ∧
        ∀ c ∈ (s₁.run events).saved, c.dataset = d.id → ∃ e ∈ events, e.Saves c := by
  have hs := h.integral
  refine ⟨hs, fun owner name filename u d s₁ hingest => ?_⟩
  obtain ⟨-, hid, fields, hstores, rfl⟩ := ingest_eq_ok hingest
  have hfresh : ∀ e ∈ s.datasets, e.id ≠ d.id := by
    intro e he
    rw [hid]
    exact Nat.ne_of_lt (lt_nextId (List.mem_map_of_mem he))
  refine ⟨hid, ?_, fields, hstores, fun events hkept => ?_⟩
  · intro hmem
    obtain ⟨e, he, heq⟩ := List.mem_map.1 hmem
    exact hfresh e he heq
  · have hs₁ := hs.ingested hid fields (s.clock + 1) (s.clock + 1 + fields.length)
    have hd : d ∈ s.datasets ++ [d] := List.mem_append_right _ (List.mem_singleton_self d)
    obtain ⟨hrows, hsaved⟩ := dataset_run hs₁ hd events hkept
    refine ⟨?_, fun c hc hdataset => ?_⟩
    · rw [hrows]
      show (s.rows ++ _).filter _ = _
      -- nothing in the old table has the new id, and all new rows have it
      rw [List.filter_append, show s.rows.filter _ = [] from hs.rowsOf_eq_nil hfresh,
        List.nil_append, List.filter_eq_self]
      exact fun r hr => decide_eq_true (mem_newRows hr).2
    · -- a column saved before would belong to a dataset with the new id
      refine (hsaved c hc hdataset).resolve_left fun hold => ?_
      obtain ⟨e, he, hid', -⟩ := hs.savedOwned c hold
      exact hfresh e he (hid'.trans hdataset)

/-- The id of a deleted dataset is given to the next one, which shows its own
row only. -/
theorem reachable_integrity_reused :
    let old : Upload := ⟨[.text "a"], [[.bool true], [.bool false]], false⟩
    let new : Upload := ⟨[.text "b"], [[.null]], false⟩
    let s := empty.run
      [.ingest (some 1) (some "old") none old, .deleteDataset (some 1) (some 1)]
    s.Reachable ∧ ∃ d s₁, s.ingest (some 2) (some "new") none new = (.ok d, s₁) ∧ d.id = 1 ∧
      ∀ events, (∀ e ∈ events, ¬ e.Deletes d) →
        ((s₁.run events).rowsOf 1).map (·.fields) = [[("b", .null)]] ∧
        ∀ c ∈ (s₁.run events).saved, c.dataset = 1 → ∃ e ∈ events, e.Saves c := by
  intro old new s
  have hs : s.Reachable := ⟨_, rfl⟩
  refine ⟨hs, _, _, rfl, rfl, fun events hkept => ?_⟩
  obtain ⟨-, hnew⟩ := reachable_integrity hs
  obtain ⟨hid, -, fields, hstores, hall⟩ := hnew (some 2) (some "new") none new _ _ rfl
  obtain ⟨cells, raw, hcells, hraw, hfields⟩ := hstores
  cases hcells
  cases hraw
  cases hfields
  obtain ⟨hrows, hsaved⟩ := hall events hkept
  exact ⟨congrArg (List.map (·.fields)) hrows, hsaved⟩

end Gridbook.Store
