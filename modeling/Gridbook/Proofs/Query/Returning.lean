/-
Gridbook/Proofs/Query/Returning.lean

A table comes back as it was stored.  Without filters and without an order a
dataset's pages show its rows as they stand in the store, and these are the rows of
the table in their order.  What happens to the store in between does not matter as
long as the dataset is not deleted.

Main statement: the pages of a table's dataset, put together, have one record for
each row of the table, numbered from zero, with the cells of the last columns of its
names as they are stored, if names tell the labels apart (`pages_returned`).
-/
import Gridbook.Proofs.Query.Searching
import Gridbook.Proofs.Store.Fields

namespace Gridbook

/-- The same request for another page. -/
def RowRequest.onPage (r : RowRequest) (page : Int) : RowRequest :=
  { r with page }

/-- Does the request ask for rows without choosing or arranging them? -/
structure RowRequest.Plain (r : RowRequest) : Prop where
  unsorted : Form.given r.sortBy = none
  unfiltered : r.filters = []

/-- Is it the record that comes back for a row of a dataset's table, which stands at
that place under these labels? -/
structure Record.Returns (d : Dataset) (labels : List Cell) (row : List Cell × Nat) (r : Record) :
    Prop where
  owner : r.owner = d.owner
  dataset : r.dataset = d.id
  index : r.index = row.2
  fields : Upload.Carries labels row.1 r.fields

namespace Store

variable {s s₁ : Store} {d : Dataset} {owner : Ident} {name filename : Option String}
  {u : Upload} {r : RowRequest}

/-! ### Rows as they stand -/

theorem meeting_nil [Reader] (rows : List Row) : meeting [] rows = .ok rows := by
  induction rows with
  | nil => rfl
  | cons r rows ih =>
    rw [meeting, ih]
    rfl

/-- The rows of a table are stored in the order of their places. -/
theorem byPlace_newRows (owner : Int) (dataset first time : Nat) (fields : List Fields) :
    byPlace (newRows owner dataset first time fields) = newRows owner dataset first time fields := by
  have hids : ((newRows owner dataset first time fields).map (·.id)).Nodup := by
    rw [map_id_newRows]
    exact List.nodup_range'
  have hplaces :
      (newRows owner dataset first time fields).Pairwise fun a b => placeCompare a b = .lt := by
    rw [List.pairwise_iff_getElem]
    intro i j hi hj hij
    have hindex : compare i j = .lt := Nat.compare_eq_lt.2 hij
    simp [newRows, placeCompare, hindex, Std.ReflCmp.compare_self]
  exact eq_of_pairwise_lt (perm_sortBy _ _) (pairwise_byPlace hids) hplaces

/-- A selection of all rows of a dataset finds them by their places. -/
theorem finds_rowsOf [Reader] (hs : s.Integral) (htable : s.hasTable .rows)
    (howner : ∀ n ∈ owner, fitsWord n) (hd : d ∈ s.datasets) (hid : fitsWord d.id)
    (hown : owner.names d.owner) :
    s.Finds ⟨owner, some (d.id : Int), [], []⟩ ⟨none, false⟩ (byPlace (s.rowsOf d.id)) := by
  let sel : Selection := ⟨owner, some (d.id : Int), [], []⟩
  have hdataset : ∀ n ∈ sel.dataset, fitsWord n := fun n hn => Option.some.inj hn ▸ hid
  have hconds : s.conditions sel [] = .ok [] :=
    Outcome.bind_eq_ok.2 ⟨(), statement_of_idents htable howner hdataset, rfl⟩
  -- the rows with the dataset's id are its owner's
  have hcovers : s.rows.filter sel.covers = s.rowsOf d.id := by
    refine List.filter_congr fun row hrow => ?_
    rw [Bool.eq_iff_iff, Selection.covers, Bool.and_eq_true, decide_eq_true_iff]
    show _ ∧ ((d.id : Int) == (row.dataset : Int)) = true ↔ _
    rw [beq_iff_eq]
    constructor
    · rintro ⟨-, hdataset⟩
      exact (Int.ofNat.inj hdataset).symm
    · intro hdataset
      rw [hs.owner_eq hd hrow hdataset, hdataset]
      exact ⟨hown, rfl⟩
  have hfound : s.selected sel [] = .ok (s.rowsOf d.id) := by
    rw [selected, hcovers, meeting_nil]
  have hlength := (perm_sortBy (fun a b => (placeCompare a b).isLE) (s.rowsOf d.id)).length_eq
  refine ⟨htable, count_eq_ok.2 ⟨[], [], s.rowsOf d.id, rfl, hconds, hfound, hlength.symm⟩, ?_⟩
  exact ⟨[], [], s.rowsOf d.id, rfl, hconds, hfound, rfl⟩

/-- Where nothing is asked of the rows, a dataset's page is a page of all its rows. -/
theorem datasetData_of_plain [Reader] {dataset : Ident} (hd : s.ownedDataset owner dataset = .ok d)
    (hr : r.Plain) :
    s.datasetData owner dataset r =
      s.page ⟨owner, dataset, [], []⟩ none (some r.page) (some r.limit) := by
  rw [datasetData, hd, requestedSort, hr.unsorted, hr.unfiltered]
  rfl

/-! ### After a table has been stored -/

/-- Only an owner whose number fits a word can store a table. -/
theorem fitsWord_of_ingest (h : s.ingest owner name filename u = (.ok d, s₁)) :
    ∀ n ∈ owner, fitsWord n := by
  obtain ⟨_, -, h⟩ := Outcome.bind_eq_ok.1 (commit_ok h)
  obtain ⟨_, -, h⟩ := Outcome.bind_eq_ok.1 h
  obtain ⟨_, hstatement, -⟩ := Outcome.bind_eq_ok.1 h
  have hbound := (statement_eq_ok.1 (during_eq_ok.1 hstatement)).2
  exact fun n hn => hbound n (Option.mem_toList.2 hn)

/-- A dataset is there up to its deletion. -/
theorem mem_datasets_run (hs : s.Integral) (hd : d ∈ s.datasets) (events : List Event)
    (hkept : ∀ e ∈ events, ¬ e.Deletes d) : d ∈ (s.run events).datasets := by
  induction events generalizing s with
  | nil => exact hd
  | cons e events ih =>
    have hchange := change_after s e
    have hd' := (dataset_change hs hd hchange (hkept e List.mem_cons_self)).1
    exact ih (hs.change hchange) hd' fun e' he' => hkept e' (List.mem_cons_of_mem e he')

theorem Reachable.run (hs : s.Reachable) (events : List Event) : (s.run events).Reachable := by
  induction events generalizing s with
  | nil => exact hs
  | cons e events ih => exact ih (hs.after e)

/-- Up to its deletion, whatever happens, the dataset of a table has the table's rows. -/
theorem rowsOf_run_of_ingest (hs : s.Reachable)
    (hingest : s.ingest owner name filename u = (.ok d, s₁)) {events : List Event}
    (hkept : ∀ e ∈ events, ¬ e.Deletes d) :
    (s₁.run events).Reachable ∧ d ∈ (s₁.run events).datasets ∧
      ∃ fields first time, u.Stores fields ∧
        (s₁.run events).rowsOf d.id = newRows d.owner d.id first time fields := by
  obtain ⟨-, -, -, -, hdescribes⟩ := describes_of_ingest hs.integral hingest
  obtain ⟨fields, first, time, hstores, hrows⟩ := hdescribes.rows
  have hs₁ : s₁.Reachable := by
    have hafter : s.after (.ingest owner name filename u) = s₁ := congrArg Prod.snd hingest
    exact hafter ▸ hs.after _
  have hd : d ∈ s₁.datasets := by
    obtain ⟨-, -, fields, -, rfl⟩ := ingest_eq_ok hingest
    exact List.mem_append_right _ (List.mem_singleton_self d)
  refine ⟨hs₁.run events, mem_datasets_run hs₁.integral hd events hkept, fields, first,
    time, hstores, ?_⟩
  rw [(dataset_run hs₁.integral hd events hkept).1, hrows]

/-- The records of new rows, next to the rows that they have been stored for. -/
theorem returns_newRows {labels : List Cell} {cells : List (List Cell)} {fields : List Fields}
    (h : List.Forall₂ (Upload.Carries labels) cells fields) (first time : Nat) :
    List.Forall₂ (Record.Returns d labels) cells.zipIdx
      ((newRows d.owner d.id first time fields).map Row.toRecord) := by
  rw [List.forall₂_iff_get] at h ⊢
  obtain ⟨hlength, hcarries⟩ := h
  refine ⟨by simp [newRows, hlength], fun i hi hi' => ?_⟩
  have hcells : i < cells.length := by simpa using hi
  have hfields := hcarries i hcells (hlength ▸ hcells)
  constructor
  · simp [newRows, Row.toRecord]
  · simp [newRows, Row.toRecord]
  · simp [newRows, Row.toRecord]
  · simpa [newRows, Row.toRecord] using hfields

/-- A table with a column that has been stored as a dataset comes back on the pages of
the dataset, whatever was stored before and whatever has happened since, up to the
dataset's deletion.  It is all that they show: for each row one record, at the row's
place, which has the row's cells. -/
theorem pages_returned [Reader] (hs : s.Reachable)
    (hingest : s.ingest owner name filename u = (.ok d, s₁)) (hlabels : u.labels ≠ [])
    (hid : fitsWord d.id) (hcount : (u.rows.length : Int) ≤ 2 ^ 63) {events : List Event}
    (hkept : ∀ e ∈ events, ¬ e.Deletes d) (hr : r.Plain) (hlimit : 1 ≤ r.limit)
    (hfits : r.limit < 2 ^ 63) :
    let shown (p : Int) := (s₁.run events).datasetData owner (some (d.id : Int)) (r.onPage p)
    ∃ (cells : List (List Cell)) (n : Nat) (pages : List Page),
      u.cells = .ok cells ∧ cells.length = u.rows.length ∧
      (List.range n).mapM (fun i : Nat => shown (i + 1)) = .ok pages ∧
      List.Forall₂ (Record.Returns d u.labels) cells.zipIdx (pages.flatMap (·.records)) ∧
      ∀ p : Int, 1 ≤ p → (p - 1) * r.limit < 2 ^ 63 → ∃ q, shown p = .ok q ∧
        q.total = cells.length ∧ q.totalPages = n ∧ (q.records ≠ [] ↔ p ≤ n) := by
  intro shown
  obtain ⟨hs', hd, fields, first, time, hstores, hrows⟩ := rowsOf_run_of_ingest hs hingest hkept
  obtain ⟨cells, hcells, hcarries⟩ := Upload.carries_of_stores hstores hlabels
  have hlength := (Upload.cells_eq_ok hcells).1
  have hcount' : (newRows d.owner d.id first time fields).length = cells.length := by
    rw [newRows, List.length_mapIdx, hcarries.length_eq]
  -- the dataset is the owner's, whose number has been bound before
  have hown : owner.names d.owner := names_iff.2 (ingest_eq_ok hingest).1
  have hword := fitsWord_of_ingest hingest
  have hfound := ownedDataset_of_mem hs'.integral (hs'.hasTable .datasets) hword hd hid hown
  have hshown : ∀ p, shown p = (s₁.run events).page ⟨owner, some (d.id : Int), [], []⟩ none
      (some p) (some r.limit) := fun p => datasetData_of_plain hfound ⟨hr.unsorted, hr.unfiltered⟩
  have hfinds := finds_rowsOf hs'.integral (hs'.hasTable .rows) hword hd hid hown
  rw [hrows, byPlace_newRows] at hfinds
  have hvalid : checked ⟨owner, some (d.id : Int), [], []⟩ =
      .ok ⟨owner, some (d.id : Int), [], []⟩ := rfl
  have horder : Sorting.order none = .ok ⟨none, false⟩ := rfl
  obtain ⟨n, pages, hpages, hconcat, hanswers⟩ :=
    exists_pages hvalid horder hfinds hlimit hfits (by omega)
  refine ⟨cells, n, pages, hcells, hlength, ?_, ?_, fun p hp hplace => ?_⟩
  · simp only [hshown]
    exact hpages
  · rw [hconcat]
    exact returns_newRows hcarries first time
  · rw [hshown, ← hcount']
    exact hanswers p hp hplace

/-- A table with one name twice comes back while another owner stores and deletes. -/
theorem pages_returned_between :
    let u : Upload := ⟨["a", "b", "a"].map .text,
      [[.bool true, .bool false, .text "x"], [.text "y"]], false⟩
    let other : Upload := ⟨[.text "a"], [[.null]], false⟩
    let s := empty.run [.ingest (some 2) (some "old") none other]
    let events : List Event :=
      [.ingest (some 2) (some "new") none other, .deleteDataset (some 2) (some 1)]
    ∃ d s₁, s.ingest (some 1) (some "t") none u = (.ok d, s₁) ∧ d.id = 2 ∧
      ∃ (n : Nat) (pages : List Page),
        (List.range n).mapM (fun i : Nat => (s₁.run events).datasetData (some 1) (some 2)
          ⟨i + 1, 1, none, "asc", []⟩) = .ok pages ∧
        (pages.flatMap (·.records)).map (fun r => (r.index, r.fields.lookup "a")) =
          [(0, some (.text "x")), (1, some .null)] := by
  intro u other s events
  obtain ⟨d, s₁, hingest, hid, howner⟩ : ∃ d s₁,
      s.ingest (some 1) (some "t") none u = (.ok d, s₁) ∧ d.id = 2 ∧ d.owner = 1 :=
    ⟨_, _, rfl, rfl, rfl⟩
  have hkept : ∀ e ∈ events, ¬ e.Deletes d := List.forall_mem_cons.2
    ⟨id, List.forall_mem_singleton.2 fun h => absurd (howner ▸ h.1) (by decide)⟩
  let r : RowRequest := ⟨1, 1, none, "asc", []⟩
  have hr : r.Plain := ⟨rfl, rfl⟩
  obtain ⟨cells, n, pages, hcells, -, hpages, hrecords, -⟩ :=
    pages_returned ⟨_, rfl⟩ hingest (by decide) (hid ▸ by decide) (by decide) hkept hr
      (by decide) (by decide)
  cases hcells
  rw [hid] at hpages
  refine ⟨d, s₁, hingest, hid, n, pages, hpages, ?_⟩
  have hlabels := Upload.distinguishes_texts ["a", "b", "a"]
  generalize pages.flatMap (·.records) = records at hrecords
  rcases hrecords with _ | ⟨hfirst, _ | ⟨hsecond, _ | _⟩⟩
  have hx := hfirst.fields.lookup_eq hlabels
    (show Upload.lastUnder "a" _ = some (.text "x") from rfl) rfl
  have hnull := hsecond.fields.lookup_eq hlabels
    (show Upload.lastUnder "a" _ = some .null from rfl) rfl
  rw [List.map_cons, List.map_singleton, hx, hnull, hfirst.index, hsecond.index]
  rfl

/-- Columns whose labels are equal and written in two ways come back as one, with the
first one's name and the last one's cells; and a page's size has to fit a word. -/
theorem equal_labels_merged :
    let u : Upload := ⟨[.number (.whole 1), .bool true], [[.text "x", .text "y"]], false⟩
    let s := empty.run [.ingest (some 1) (some "t") none u]
    s.datasets.map (·.columns) = [["1", "True"]] ∧
      (∃ q, s.datasetData (some 1) (some 1) ⟨1, 100, none, "asc", []⟩ = .ok q ∧
        q.records.map (fun r => r.fields.map fun f => (f.1, f.2.label)) = [[("1", "y")]]) ∧
      ∀ q, s.datasetData (some 1) (some 1) ⟨1, 2 ^ 63, none, "asc", []⟩ ≠ .ok q := by
  intro u s
  have hnone : (s.datasetData (some 1) (some 1) ⟨1, 2 ^ 63, none, "asc", []⟩).toOption.isNone =
      true := by decide +kernel
  refine ⟨by decide +kernel, Outcome.of_toOption_map (by decide +kernel), fun q hq => ?_⟩
  rw [hq] at hnone
  cases hnone

end Store

end Gridbook
