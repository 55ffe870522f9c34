/-
Gridbook/Proofs/Store/Metadata.lean

What a dataset says of its rows.  The dataset is described by the table's shape:
how many rows and columns it has, and how the labels of the columns are written.
The rows take another way, by label: labels that are equal values stand for one
field, and a table without columns has no rows to store, whatever their number.

Main statement: in every reachable store each dataset comes from a table that
was stored, its rows are numbered from zero without a gap, as many as it says if
it has a column, and they have the fields of the labels (`describes_rows`).  These
are the columns where equal labels are written alike.
-/
import Gridbook.Proofs.Store.Readable

namespace Gridbook

/-! ### Names of fields -/

/-- Writing changes values only. -/
theorem Cell.names_written {ms ws : List (String × Cell)} (h : writtenMembers? ms = some ws) :
    Named.names ws = Named.names ms := by
  induction ms generalizing ws with
  | nil =>
    cases h
    rfl
  | cons m ms ih =>
    rw [writtenMembers?] at h
    obtain ⟨w, -, h⟩ := Option.bind_eq_some_iff.1 h
    obtain ⟨ws', hws, h⟩ := Option.bind_eq_some_iff.1 h
    cases h
    exact congrArg (m.1 :: ·) (ih hws)

namespace Upload

variable {u : Upload} {labels row : List Cell} {fields : List Fields}

/-- The labels that stand for a field: of equal ones the first. -/
def fieldLabels : List Cell → List Cell
  | [] => []
  | label :: labels => label :: (fieldLabels labels).filter fun other => !sameLabel label other

/-- Are equal labels written alike? -/
def WritesAlike (labels : List Cell) : Prop :=
  ∀ a ∈ labels, ∀ b ∈ labels, sameLabel a b → a.label = b.label

theorem map_fst_byLabel (pairs : List (Cell × Cell)) :
    (byLabel pairs).map (·.1) = fieldLabels (pairs.map (·.1)) := by
  induction pairs with
  | nil => rfl
  | cons p pairs ih =>
    rw [byLabel, List.map_cons, List.map_cons, fieldLabels, ← ih, List.filter_map]
    rfl

theorem mem_of_mem_fieldLabels {l : Cell} (h : l ∈ fieldLabels labels) : l ∈ labels := by
  induction labels with
  | nil => exact h
  | cons a labels ih =>
    rcases List.mem_cons.1 h with rfl | h
    · exact List.mem_cons_self
    · exact List.mem_cons_of_mem a (ih (List.mem_filter.1 h).1)

/-- Where equal labels are written alike, no way of writing one is lost. -/
theorem map_label_fieldLabels (h : WritesAlike labels) (name : String) :
    name ∈ (fieldLabels labels).map Cell.label ↔ name ∈ labels.map Cell.label := by
  constructor
  · intro hname
    obtain ⟨l, hl, rfl⟩ := List.mem_map.1 hname
    exact List.mem_map_of_mem (mem_of_mem_fieldLabels hl)
  · induction labels with
    | nil => exact fun hname => hname
    | cons a labels ih =>
      have hrest : WritesAlike labels := fun b hb c hc =>
        h b (List.mem_cons_of_mem a hb) c (List.mem_cons_of_mem a hc)
      intro hname
      rcases List.mem_cons.1 hname with rfl | hname
      · exact List.mem_map_of_mem List.mem_cons_self
      obtain ⟨l, hl, rfl⟩ := List.mem_map.1 (ih hrest hname)
      -- the label gives way only to the first one, if it is equal to that
      by_cases hsame : sameLabel a l
      · have hlabel : a.label = l.label :=
          h a List.mem_cons_self l (List.mem_cons_of_mem a (mem_of_mem_fieldLabels hl)) hsame
        rw [← hlabel]
        exact List.mem_map_of_mem List.mem_cons_self
      · have hkept : l ∈ (fieldLabels labels).filter fun other => !sameLabel a other :=
          List.mem_filter.2 ⟨hl, by rw [Bool.not_eq_true', Bool.eq_false_iff]; exact hsame⟩
        exact List.mem_map_of_mem (List.mem_cons_of_mem a hkept)

/-- Texts are equal labels only as equal texts. -/
theorem writesAlike_texts (names : List String) : WritesAlike (names.map .text) := by
  intro a ha b hb hsame
  obtain ⟨s, -, rfl⟩ := List.mem_map.1 ha
  obtain ⟨t, -, rfl⟩ := List.mem_map.1 hb
  exact beq_iff_eq.1 hsame

/-! ### Rows of a table -/

theorem columns_eq_ok {names : List String} (h : u.columns = .ok names) :
    names = u.labels.map Cell.label := by
  have hlabels : names.map id = u.labels.map Cell.label := by
    refine Outcome.map_of_mapM h fun l name hname => ?_
    rw [Cell.label?] at hname
    split at hname
    · cases hname
      rfl
    · cases hname
  rwa [List.map_id] at hlabels

/-- The rows of a table at full width: all of them, each with a cell for every
label. -/
theorem cells_eq_ok {cells : List (List Cell)} (h : u.cells = .ok cells) :
    cells.length = u.rows.length ∧ ∀ row ∈ cells, row.length = u.labels.length := by
  unfold Upload.cells at h
  dsimp only at h
  split at h
  · cases h
  next hwidth =>
  split at h
  · obtain ⟨columns, hcolumns, rfl⟩ := Outcome.map_eq_ok.1 h
    have hlength : columns.length = u.labels.length := by
      rw [← (Outcome.mapM_eq_ok.1 hcolumns).length_eq, List.length_range]
    refine ⟨by rw [rowsOf, List.length_map, List.length_range, List.length_map], fun row hrow => ?_⟩
    obtain ⟨i, -, rfl⟩ := List.mem_map.1 hrow
    rw [List.length_map, hlength]
  · cases h
    refine ⟨List.length_map _, fun row hrow => ?_⟩
    obtain ⟨short, hshort, rfl⟩ := List.mem_map.1 hrow
    -- no row is longer than the longest one, which has a cell for every label
    have hle : short.length ≤ u.labels.length := by
      have hmax := (Store.le_foldl_max (u.rows.map List.length) 0).2 short.length
        (List.mem_map_of_mem hshort)
      by_contra hlt
      exact hwidth ⟨List.ne_nil_of_mem hshort, by omega⟩
    rw [padded, List.length_append, List.length_replicate]
    omega

theorem mem_names_fieldsOf {f : Fields} (h : fieldsOf labels row = .ok f)
    (hwidth : row.length = labels.length) (name : String) :
    name ∈ f.names ↔ name ∈ (fieldLabels labels).map Cell.label := by
  obtain ⟨pairs, hpairs, h⟩ := Outcome.bind_eq_ok.1 h
  cases h
  have hnames : pairs.map (·.1) = (byLabel (labels.zip row)).map fun p => p.1.label := by
    refine Outcome.map_of_mapM hpairs fun p q hq => ?_
    obtain ⟨c, -, rfl⟩ := Outcome.map_eq_ok.1 hq
    rfl
  have hlabels : (labels.zip row).map (·.1) = labels :=
    List.map_fst_zip (Nat.le_of_eq hwidth.symm)
  rw [Named.mem_names_ofPairs, hnames, ← hlabels, ← map_fst_byLabel, List.map_map, hlabels]
  rfl

/-- A table is stored with as many rows as it has, if it has a column. -/
theorem length_of_stores (h : u.Stores fields) :
    fields.length = if u.labels = [] then 0 else u.rows.length := by
  obtain ⟨cells, raw, hcells, hraw, hfields⟩ := h
  rw [Outcome.length_of_mapM_some hfields]
  rw [Upload.fields] at hraw
  split at hraw
  · next hempty =>
    cases hraw
    rw [if_pos (List.isEmpty_iff.1 hempty)]
    rfl
  · next hlabels =>
    rw [if_neg fun h => hlabels (List.isEmpty_iff.2 h), ← (cells_eq_ok hcells).1]
    exact (Outcome.mapM_eq_ok.1 hraw).length_eq.symm

/-- A stored row has the fields of the labels, each once. -/
theorem names_of_stores (h : u.Stores fields) {f : Fields} (hf : f ∈ fields) :
    f.names.Nodup ∧ ∀ name, name ∈ f.names ↔ name ∈ (fieldLabels u.labels).map Cell.label := by
  obtain ⟨cells, raw, hcells, hraw, hfields⟩ := h
  obtain ⟨named, hnamed, hf⟩ := Outcome.exists_of_mem_mapM_some hfields hf
  rw [Upload.fields] at hraw
  split at hraw
  · cases hraw
    cases hnamed
  obtain ⟨row, hrow, hnamed⟩ := Outcome.exists_of_mem_mapM hraw hnamed
  rw [Cell.names_written hf]
  refine ⟨?_, mem_names_fieldsOf hnamed ((cells_eq_ok hcells).2 row hrow)⟩
  obtain ⟨pairs, -, h⟩ := Outcome.bind_eq_ok.1 hnamed
  cases h
  exact Named.nodup_names_ofPairs pairs

/-! ### Rows of a dataset -/

/-- Is the dataset described by the table, and are these the rows of the table? -/
structure Describes (u : Upload) (d : Dataset) (rows : List Row) : Prop where
  columns : u.columns = .ok d.columns
  rowCount : d.rowCount = u.rows.length
  columnCount : d.columnCount = d.columns.length
  rows : ∃ fields first time, u.Stores fields ∧
    rows = Store.newRows d.owner d.id first time fields

namespace Describes

variable {d : Dataset} {rows : List Row}

theorem labels_eq_nil_iff (h : u.Describes d rows) : u.labels = [] ↔ d.columns = [] := by
  rw [columns_eq_ok h.columns, List.map_eq_nil_iff]

/-- The rows are numbered from zero, in the order of the table. -/
theorem map_index (h : u.Describes d rows) :
    rows.map (·.index) = List.range (if d.columns = [] then 0 else d.rowCount) := by
  obtain ⟨fields, first, time, hstores, rfl⟩ := h.rows
  have hlength := length_of_stores hstores
  simp only [h.labels_eq_nil_iff] at hlength
  rw [h.rowCount, ← hlength]
  refine List.ext_getElem ?_ fun i _ _ => ?_
  · simp [Store.newRows]
  · simp [Store.newRows]

/-- Every row is the owner's and has the fields of the labels. -/
theorem of_mem (h : u.Describes d rows) {r : Row} (hr : r ∈ rows) :
    r.owner = d.owner ∧ r.fields.names.Nodup ∧
      ∀ name, name ∈ r.fields.names ↔ name ∈ (fieldLabels u.labels).map Cell.label := by
  obtain ⟨fields, first, time, hstores, rfl⟩ := h.rows
  have hfields := names_of_stores hstores (Store.fields_of_mem_newRows hr)
  exact ⟨(Store.mem_newRows hr).1, hfields⟩

end Describes

end Upload

namespace Store

variable {s s' : Store} {d : Dataset}

/-- A dataset that is there before and after an event has the same rows. -/
theorem rowsOf_change (hs : s.Integral) {e : Event} (h : Change s e s') (hd : d ∈ s.datasets)
    (hd' : d ∈ s'.datasets) : s'.rowsOf d.id = s.rowsOf d.id := by
  by_cases he : e.Deletes d
  · cases h with
    | nothing => rfl
    | deleted owner dataset => exact rowsOf_restrict hs hd (List.mem_filter.1 hd').2
    | ingested => cases he
    | savedDeleted => rfl
    | saved _ hsaves => rfl
    | clockSet => rfl
  · exact (dataset_change hs hd h he).2.1

/-- A new dataset's rows are those that are stored with it. -/
theorem rowsOf_ingested (hs : s.Integral) (hid : d.id = nextId (s.datasets.map (·.id)))
    (fields : List Fields) (first time : Nat) :
    (s.rows ++ newRows d.owner d.id first time fields).filter (·.dataset = d.id) =
      newRows d.owner d.id first time fields := by
  have hfresh : ∀ e ∈ s.datasets, e.id ≠ d.id := by
    intro e he
    rw [hid]
    exact Nat.ne_of_lt (lt_nextId (List.mem_map_of_mem he))
  rw [List.filter_append, show s.rows.filter _ = [] from hs.rowsOf_eq_nil hfresh, List.nil_append,
    List.filter_eq_self]
  exact fun r hr => decide_eq_true (mem_newRows hr).2

/-- A table that is stored describes the one new dataset. -/
theorem describes_of_ingest (hs : s.Integral) {owner : Ident} {name filename : Option String}
    {u : Upload} (h : s.ingest owner name filename u = (.ok d, s')) :
    owner = some d.owner ∧ name = some d.name ∧ filename = d.filename ∧
      (∀ e ∈ s'.datasets, e ∈ s.datasets ∨ e = d) ∧ u.Describes d (s'.rowsOf d.id) := by
  obtain ⟨howner, hid, fields, hstores, rfl⟩ := ingest_eq_ok h
  obtain ⟨hname, hfilename, hcolumns, hrowCount, hcolumnCount⟩ := ingest_dataset h
  refine ⟨howner, hname, hfilename, fun e he => ?_, hcolumns, hrowCount, hcolumnCount, fields, _,
    _, hstores, rowsOf_ingested hs hid fields _ _⟩
  exact (List.mem_append.1 he).imp_right List.mem_singleton.1

/-- Is every dataset described by a table that one of the events stores? -/
def Described (s : Store) (events : List Event) : Prop :=
  ∀ d ∈ s.datasets, ∃ u, Event.ingest (some d.owner) (some d.name) d.filename u ∈ events ∧
    u.Describes d (s.rowsOf d.id)

theorem Described.after (hs : s.Integral) {events : List Event} (h : s.Described events)
    (e : Event) : (s.after e).Described (events ++ [e]) := by
  intro d hd
  have hlast : e ∈ events ++ [e] := List.mem_append_right _ (List.mem_singleton_self e)
  by_cases hold : d ∈ s.datasets
  · obtain ⟨u, hu, hdescribes⟩ := h d hold
    rw [rowsOf_change hs (change_after s e) hold hd]
    exact ⟨u, List.mem_append_left _ hu, hdescribes⟩
  -- the dataset is new, so the event has stored it
  rcases mem_datasets_change (change_after s e) hd with hd' | ⟨owner, name, filename, u, rfl⟩
  · exact absurd hd' hold
  rcases hingest : s.ingest owner name filename u with ⟨x | new, s'⟩
  · rw [Store.after, hingest, commit_error hingest] at hd
    exact absurd hd hold
  obtain ⟨rfl, rfl, rfl, hnew, hdescribes⟩ := describes_of_ingest hs hingest
  have hs' : s.after (.ingest _ _ _ u) = s' := congrArg Prod.snd hingest
  rw [hs'] at hd ⊢
  cases (hnew d hd).resolve_left hold
  exact ⟨u, hlast, hdescribes⟩

theorem described_run (events : List Event) : (empty.run events).Described events := by
  induction events using List.reverseRecOn with
  | nil => exact fun d hd => absurd hd List.not_mem_nil
  | append_singleton events e ih =>
    have hs : (empty.run events).Reachable := ⟨events, rfl⟩
    rw [run, List.foldl_append]
    exact Described.after hs.integral ih e

/-- Whatever has happened, a dataset that is there comes from a table that was
stored: it tells the numbers of the table's rows and columns and how the columns'
labels are written.  Its rows are the owner's, numbered from zero in the table's
order; there are as many as the dataset says, or none if it has no column.  They
have the fields that the labels stand for, each once, which are the columns of
the dataset where equal labels are written alike. -/
theorem describes_rows (events : List Event) (hd : d ∈ (empty.run events).datasets) :
    let rows := (empty.run events).rowsOf d.id
    d.columnCount = d.columns.length ∧
    rows.map (·.index) = List.range (if d.columns = [] then 0 else d.rowCount) ∧
    ∃ u, Event.ingest (some d.owner) (some d.name) d.filename u ∈ events ∧
      u.labels.map Cell.label = d.columns ∧ u.rows.length = d.rowCount ∧
      ∀ r ∈ rows, r.owner = d.owner ∧ r.fields.names.Nodup ∧
        (∀ name, name ∈ r.fields.names ↔
          name ∈ (Upload.fieldLabels u.labels).map Cell.label) ∧
        (Upload.WritesAlike u.labels → ∀ name, name ∈ r.fields.names ↔ name ∈ d.columns) := by
  intro rows
  obtain ⟨u, hu, h⟩ := described_run events d hd
  have hcolumns := Upload.columns_eq_ok h.columns
  refine ⟨h.columnCount, h.map_index, u, hu, hcolumns.symm, h.rowCount.symm, fun r hr => ?_⟩
  obtain ⟨howner, hnodup, hnames⟩ := h.of_mem hr
  refine ⟨howner, hnodup, hnames, fun halike name => ?_⟩
  rw [hnames, hcolumns, Upload.map_label_fieldLabels halike]

/-- A table with one name twice is stored under the id of a deleted dataset. -/
theorem describes_rows_twice :
    let old : Upload := ⟨[.text "c"], [[.null], [.null], [.null]], false⟩
    let new : Upload := ⟨["a", "b", "a"].map .text, [[.null, .null, .bool true], [.null]], false⟩
    let s := empty.run [.ingest (some 1) (some "old") none old, .deleteDataset (some 1) (some 1),
      .ingest (some 2) (some "new") none new]
    ∃ d ∈ s.datasets, d.id = 1 ∧ d.rowCount = 2 ∧ d.columnCount = 3 ∧
      (s.rowsOf 1).map (·.index) = [0, 1] ∧
      ∀ r ∈ s.rowsOf 1, ∀ name, name ∈ r.fields.names ↔ name ∈ ["a", "b", "a"] := by
  intro old new s
  obtain ⟨d, hd, hid, hname, hcount, hcolumns⟩ : ∃ d ∈ s.datasets, d.id = 1 ∧ d.name = "new" ∧
      d.rowCount = 2 ∧ d.columns = ["a", "b", "a"] := ⟨_, List.mem_cons_self, rfl, rfl, rfl, rfl⟩
  obtain ⟨hcolumnCount, hindex, u, hu, -, -, hrows⟩ := describes_rows _ hd
  rw [hid] at hindex hrows
  -- of the two tables that were stored only the second one has this name
  have hlabels : u.labels = new.labels := by
    rcases List.mem_cons.1 hu with h | hu
    · have h := (Event.ingest.inj h).2.1
      rw [hname] at h
      exact absurd h (by decide)
    rcases List.mem_cons.1 hu with h | hu
    · cases h
    · rw [(Event.ingest.inj (List.mem_singleton.1 hu)).2.2.2]
  refine ⟨d, hd, hid, hcount, by rw [hcolumnCount, hcolumns]; rfl, ?_, fun r hr name => ?_⟩
  · rw [hindex, hcolumns, hcount]
    rfl
  · obtain ⟨-, -, -, halike⟩ := hrows r hr
    rw [halike (hlabels ▸ Upload.writesAlike_texts _), hcolumns]

/-- The rows of a table without columns are counted and not stored, and labels that
are equal values and written in two ways share one field. -/
theorem rows_without_columns_lost :
    let bare : Upload := ⟨[], [[], []], false⟩
    let equal : Upload := ⟨[.number (.whole 1), .bool true], [[.text "x", .text "y"]], false⟩
    let s := empty.run [.ingest (some 1) (some "bare") none bare,
      .ingest (some 1) (some "equal") none equal]
    s.Reachable ∧
      (∃ d ∈ s.datasets, d.id = 1 ∧ d.rowCount = 2 ∧ s.rowsOf 1 = []) ∧
      ∃ d ∈ s.datasets, d.id = 2 ∧ d.columns = ["1", "True"] ∧
        (s.rowsOf 2).map (·.fields.names) = [["1"]] := by
  intro bare equal s
  have hbare : (s.datasets.any fun d => d.id = 1 && d.rowCount = 2) = true := by decide +kernel
  have hequal : (s.datasets.any fun d => d.id = 2 && d.columns = ["1", "True"]) = true := by
    decide +kernel
  obtain ⟨d, hd, hbare⟩ := List.any_eq_true.1 hbare
  obtain ⟨e, he, hequal⟩ := List.any_eq_true.1 hequal
  rw [Bool.and_eq_true, decide_eq_true_iff, decide_eq_true_iff] at hbare hequal
  have hnone : (s.rowsOf 1).isEmpty = true := by decide +kernel
  refine ⟨⟨_, rfl⟩, ⟨d, hd, hbare.1, hbare.2, List.isEmpty_iff.1 hnone⟩, e, he, hequal.1,
    hequal.2, ?_⟩
  decide +kernel

end Store

end Gridbook
