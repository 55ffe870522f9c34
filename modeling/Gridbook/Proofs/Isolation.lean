/-
Gridbook/Proofs/Isolation.lean

Owners do not see each other.  Every reading of an owner has the same answer on
stores that are the same for them, even where the store is not asked for the
owner's rows, as in the samples of a column: these are taken from datasets of
the owner, and an integral store has no row of another owner in them.

Main statement: nothing that others do changes an answer to an owner, and all
answers are made of the owner's own things (`owner_isolation`).
-/
import Gridbook.Chart.Build
import Gridbook.Proofs.Query.Paging
import Gridbook.Proofs.Store.Own

namespace Gridbook.Store

variable {owner : Ident} {s s' : Store}

/-! ### Rows -/

namespace SameFor

theorem hasTable (h : SameFor owner s s') : s.hasTable = s'.hasTable := by
  funext t
  rw [Store.hasTable, Store.hasTable, h.dropped]

theorem statement (h : SameFor owner s s') : s.statement = s'.statement := by
  funext tables bound
  rw [Store.statement, Store.statement, h.hasTable]

theorem conditions (h : SameFor owner s s') : s.conditions = s'.conditions := by
  funext sel ops
  rw [Store.conditions, Store.conditions, h.statement]

/-- What is narrowed down to an owner first can be narrowed down further. -/
theorem filter_own {α : Type} (as : List α) (own : α → Bool) {p : α → Bool}
    (h : ∀ a ∈ as, p a → own a) : as.filter p = (as.filter own).filter p := by
  rw [List.filter_filter]
  refine List.filter_congr fun a ha => ?_
  cases hp : p a with
  | false => rfl
  | true => rw [h a ha hp, Bool.true_and]

theorem selected [Reader] (h : SameFor owner s s') {sel : Selection} (hsel : sel.owner = owner) :
    s.selected sel = s'.selected sel := by
  -- what the selection covers is the owner's, so only that is looked at
  have hcovers : ∀ r, sel.covers r → owner.names r.owner := by
    intro r hr
    rw [Selection.covers, Bool.and_eq_true, hsel] at hr
    exact hr.1
  funext conds
  rw [Store.selected, Store.selected,
    filter_own s.rows (fun r => owner.names r.owner) fun r _ => hcovers r,
    filter_own s'.rows (fun r => owner.names r.owner) fun r _ => hcovers r]
  exact congrArg (fun rows => meeting conds (rows.filter sel.covers)) h.rows

theorem count [Reader] (h : SameFor owner s s') {sel : Selection} (hsel : sel.owner = owner) :
    s.count sel = s'.count sel := by
  rw [Store.count, Store.count, h.conditions, h.selected hsel]

theorem windowOf [Reader] (h : SameFor owner s s') {sel : Selection} (hsel : sel.owner = owner) :
    s.windowOf sel = s'.windowOf sel := by
  funext ops order limit offset
  rw [Store.windowOf, Store.windowOf, h.conditions, h.statement, h.selected hsel]

theorem fetch [Reader] (h : SameFor owner s s') {sel : Selection} (hsel : sel.owner = owner) :
    s.fetch sel = s'.fetch sel := by
  funext order page limit
  rw [Store.fetch, Store.fetch, h.windowOf hsel, h.count hsel]

/-- Checking the filters of a selection leaves its owner. -/
theorem owner_checked {sel valid : Selection} (h : checked sel = .ok valid) :
    valid.owner = sel.owner := by
  obtain ⟨filters, -, h⟩ := Outcome.bind_eq_ok.1 h
  cases h
  rfl

theorem rowCount [Reader] (h : SameFor owner s s') {sel : Selection} (hsel : sel.owner = owner) :
    s.rowCount sel = s'.rowCount sel :=
  Outcome.bind_congr fun _ hvalid => h.count ((owner_checked hvalid).trans hsel)

theorem page [Reader] (h : SameFor owner s s') {sel : Selection} (hsel : sel.owner = owner) :
    s.page sel = s'.page sel := by
  funext sort page limit
  refine Outcome.bind_congr fun number _ => ?_
  dsimp only
  split
  · rfl
  refine Outcome.bind_congr fun size _ => ?_
  split
  · rfl
  refine Outcome.bind_congr fun order _ => Outcome.bind_congr fun valid hvalid => ?_
  rw [h.fetch ((owner_checked hvalid).trans hsel)]

theorem rowStats (h : SameFor owner s s') : s.rowStats owner = s'.rowStats owner := by
  have hmine : s.rows.filter (fun r => owner.names r.owner) =
      s'.rows.filter fun r => owner.names r.owner := h.rows
  rw [Store.rowStats, Store.rowStats, h.statement, hmine]

/-! ### Datasets and saved columns -/

theorem datasetsOf (h : SameFor owner s s') : s.datasetsOf owner = s'.datasetsOf owner := by
  have hmine : s.datasets.filter (fun d => owner.names d.owner) =
      s'.datasets.filter fun d => owner.names d.owner := h.datasets
  rw [Store.datasetsOf, Store.datasetsOf, h.statement, hmine]

theorem dataset? (h : SameFor owner s s') : s.dataset? owner = s'.dataset? owner := by
  have hfind : ∀ (s : Store) (dataset : Ident),
      s.datasets.find? (fun d => dataset.names d.id && owner.names d.owner) =
        (s.only owner).datasets.find? fun d => dataset.names d.id := by
    intro s dataset
    show _ = (s.datasets.filter fun d => owner.names d.owner).find? _
    rw [List.find?_filter]
    exact congrArg s.datasets.find? (funext fun d => by simp [Bool.and_comm])
  funext dataset
  rw [Store.dataset?, Store.dataset?, h.statement, hfind, hfind, h.datasets]

theorem ownedDataset (h : SameFor owner s s') :
    s.ownedDataset owner = s'.ownedDataset owner := by
  funext dataset
  rw [Store.ownedDataset, Store.ownedDataset, h.dataset?]

theorem savedOf (h : SameFor owner s s') : s.savedOf owner = s'.savedOf owner := by
  funext dataset
  have hown : ∀ c : SavedColumn,
      (owner.names c.owner && (dataset.map (· == (c.dataset : Int))).getD true) = true →
        owner.names c.owner = true := fun c hc => (Bool.and_eq_true_iff.1 hc).1
  rw [Store.savedOf, Store.savedOf, h.statement,
    filter_own s.saved (fun c => owner.names c.owner) fun c _ => hown c,
    filter_own s'.saved (fun c => owner.names c.owner) fun c _ => hown c]
  have hmine : s.saved.filter (fun c => owner.names c.owner) =
      s'.saved.filter fun c => owner.names c.owner := h.saved
  rw [hmine]

/-! ### Columns -/

/-- The rows of an owner's dataset are the owner's, although they are not asked
for by the owner. -/
theorem filter_dataset (hs : s.Integral) {d : Dataset} (hd : d ∈ s.datasets)
    (hown : owner.names d.owner) :
    s.rows.filter (fun r => Ident.names (some (d.id : Int)) r.dataset) =
      (s.only owner).rows.filter fun r => Ident.names (some (d.id : Int)) r.dataset := by
  refine filter_own s.rows (fun r => owner.names r.owner) fun r hr hid => ?_
  have hdataset : r.dataset = d.id := (Int.ofNat.inj (Option.some.inj (names_iff.1 hid))).symm
  rw [hs.owner_eq hd hr hdataset]
  exact hown

theorem mem_datasets (h : SameFor owner s s') {d : Dataset} (hd : d ∈ s.datasets)
    (hown : owner.names d.owner) : d ∈ s'.datasets := by
  have hmine : d ∈ (s.only owner).datasets := List.mem_filter.2 ⟨hd, hown⟩
  rw [h.datasets] at hmine
  exact List.mem_of_mem_filter hmine

theorem sample [Reader] (h : SameFor owner s s') (hs : s.Integral) (hs' : s'.Integral) {d : Dataset}
    (hd : d ∈ s.datasets) (hown : owner.names d.owner) :
    s.sample (some (d.id : Int)) = s'.sample (some (d.id : Int)) := by
  funext column limit
  rw [Store.sample, Store.sample, h.statement, filter_dataset hs hd hown,
    filter_dataset hs' (h.mem_datasets hd hown) hown, h.rows]

end SameFor

/-- The datasets that are listed are the owner's. -/
theorem mem_datasetsOf {ds : List Dataset} (h : s.datasetsOf owner = .ok ds) {d : Dataset}
    (hd : d ∈ ds) : d ∈ s.datasets ∧ owner.names d.owner := by
  obtain ⟨_, -, h⟩ := Outcome.bind_eq_ok.1 (during_eq_ok.1 h)
  cases h
  exact List.mem_filter.1 ((perm_sortBy _ _).mem_iff.1 hd)

theorem dataset?_eq_some {dataset : Ident} {d : Dataset}
    (h : s.dataset? owner dataset = .ok (some d)) : d ∈ s.datasets ∧ owner.names d.owner := by
  obtain ⟨_, -, h⟩ := Outcome.bind_eq_ok.1 (during_eq_ok.1 h)
  have hfind := Except.ok.inj h
  have hnames := List.find?_some hfind
  rw [Bool.and_eq_true] at hnames
  exact ⟨List.mem_of_find?_eq_some hfind, hnames.2⟩

theorem mem_listedDatasets {dataset : Option Int} {ds : List Dataset}
    (h : s.listedDatasets owner dataset = .ok ds) {d : Dataset} (hd : d ∈ ds) :
    d ∈ s.datasets ∧ owner.names d.owner := by
  cases dataset with
  | none => exact mem_datasetsOf h hd
  | some id =>
    obtain ⟨found, hfound, h⟩ := Outcome.bind_eq_ok.1 h
    cases h
    cases found with
    | none => cases hd
    | some e =>
      rw [List.mem_singleton.1 hd]
      exact dataset?_eq_some hfound

/-- Every column is looked up in one of the datasets, and that one has it. -/
theorem mem_firstPlaces {ds : List Dataset} {place : String × Nat} (h : place ∈ firstPlaces ds) :
    ∃ d ∈ ds, place.1 ∈ d.columns ∧ place.2 = d.id := by
  obtain ⟨g, hg, hplace⟩ := List.mem_filterMap.1 h
  obtain ⟨name, -, rfl⟩ := List.mem_map.1 hg
  obtain ⟨id, hid, rfl⟩ := Option.map_eq_some_iff.1 hplace
  obtain ⟨pair, hpair, rfl⟩ := List.mem_map.1 (List.mem_of_head? hid)
  obtain ⟨hpair, hname⟩ := List.mem_filter.1 hpair
  obtain ⟨d, hd, hpair⟩ := List.mem_flatMap.1 hpair
  obtain ⟨column, hcolumn, rfl⟩ := List.mem_map.1 hpair
  cases of_decide_eq_true hname
  exact ⟨d, hd, hcolumn, rfl⟩

namespace SameFor

theorem listedDatasets (h : SameFor owner s s') :
    s.listedDatasets owner = s'.listedDatasets owner := by
  funext dataset
  cases dataset with
  | none => exact h.datasetsOf
  | some id =>
    rw [Store.listedDatasets, Store.listedDatasets, h.dataset?]

theorem columns [Reader] (h : SameFor owner s s') (hs : s.Integral) (hs' : s'.Integral) :
    s.columns owner = s'.columns owner := by
  funext dataset sampleSize
  rw [Store.columns, Store.columns, ← h.listedDatasets]
  refine Outcome.bind_congr fun ds hds => ?_
  -- each column is sampled in a dataset that is listed, which is the owner's
  rw [Outcome.mapM_congr fun place hplace => ?_]
  obtain ⟨d, hd, -, hid⟩ := mem_firstPlaces hplace
  obtain ⟨hmem, hown⟩ := mem_listedDatasets hds hd
  rw [sampledColumn, sampledColumn, hid, h.sample hs hs' hmem hown]

/-! ### Charts -/

theorem chartSource [Reader] (h : SameFor owner s s') (hs : s.Integral) (hs' : s'.Integral) :
    s.chartSource owner = s'.chartSource owner := by
  rw [Store.chartSource, Store.chartSource, h.columns hs hs']
  congr 1
  · funext p
    rw [h.rowCount rfl]
  · funext p sort limit
    rw [h.page rfl]

end SameFor

/-! ### All answers -/

/-- Have the stores the same answer to every reading of an owner?  A reading has
an answer and leaves no store behind it. -/
structure SameAnswers [Reader] (owner : Ident) (s s' : Store) : Prop where
  page : ∀ dataset filters required sort page limit,
    s.page ⟨owner, dataset, filters, required⟩ sort page limit =
      s'.page ⟨owner, dataset, filters, required⟩ sort page limit
  rowCount : ∀ dataset filters required,
    s.rowCount ⟨owner, dataset, filters, required⟩ =
      s'.rowCount ⟨owner, dataset, filters, required⟩
  ownerData : ∀ r, s.ownerData owner r = s'.ownerData owner r
  datasetData : ∀ dataset r, s.datasetData owner dataset r = s'.datasetData owner dataset r
  search : ∀ r, s.search owner r = s'.search owner r
  dataset : ∀ dataset, s.dataset? owner dataset = s'.dataset? owner dataset
  datasetList : ∀ limit, s.datasetList owner limit = s'.datasetList owner limit
  dashboard : s.dashboard owner = s'.dashboard owner
  columns : ∀ dataset sampleSize,
    s.columns owner dataset sampleSize = s'.columns owner dataset sampleSize
  numericColumns : ∀ dataset, s.numericColumns owner dataset = s'.numericColumns owner dataset
  validate : ∀ r : ChartRequest,
    r.validate (s.chartSource owner) = r.validate (s'.chartSource owner)
  generate : ∀ r : ChartRequest,
    r.generate (s.chartSource owner) = r.generate (s'.chartSource owner)
  optimize : ∀ r : ChartRequest,
    r.optimize? (s.chartSource owner) = r.optimize? (s'.chartSource owner)
  generateOptimized : ∀ r : ChartRequest,
    r.generateOptimized (s.chartSource owner) = r.generateOptimized (s'.chartSource owner)
  preview : ∀ r : ChartRequest,
    r.preview (s.chartSource owner) = r.preview (s'.chartSource owner)
  savedOf : ∀ dataset, s.savedOf owner dataset = s'.savedOf owner dataset
  evaluateSaved : ∀ dataset rows,
    s.evaluateSaved owner dataset rows = s'.evaluateSaved owner dataset rows

theorem SameFor.sameAnswers [Reader] (h : SameFor owner s s') (hs : s.Integral)
    (hs' : s'.Integral) :
    SameAnswers owner s s' := by
  have hcolumns := h.columns hs hs'
  have hsource := h.chartSource hs hs'
  have hownerData : s.ownerData owner = s'.ownerData owner := by
    funext r
    rw [Store.ownerData, Store.ownerData, h.page rfl]
  have hdatasetData : s.datasetData owner = s'.datasetData owner := by
    funext dataset r
    rw [Store.datasetData, Store.datasetData, h.ownedDataset]
    exact Outcome.bind_congr fun d _ => by dsimp only; rw [h.page rfl]
  exact {
    page := fun _ _ _ _ _ _ => by rw [h.page rfl]
    rowCount := fun _ _ _ => h.rowCount rfl
    ownerData := fun _ => by rw [hownerData]
    datasetData := fun _ _ => by rw [hdatasetData]
    search := fun r => by rw [Store.search, Store.search, hownerData, hdatasetData]
    dataset := fun _ => by rw [h.dataset?]
    datasetList := fun _ => by rw [Store.datasetList, Store.datasetList, h.datasetsOf]
    dashboard := by rw [Store.dashboard, Store.dashboard, h.datasetsOf, h.rowStats]
    columns := fun _ _ => by rw [hcolumns]
    numericColumns := fun _ => by rw [Store.numericColumns, Store.numericColumns, hcolumns]
    validate := fun _ => by rw [hsource]
    generate := fun _ => by rw [hsource]
    optimize := fun _ => by rw [hsource]
    generateOptimized := fun _ => by rw [hsource]
    preview := fun _ => by rw [hsource]
    savedOf := fun _ => by rw [h.savedOf]
    evaluateSaved := fun _ _ => by
      rw [Store.evaluateSaved, Store.evaluateSaved, hcolumns, h.savedOf] }

/-! ### What is shown -/

/-- Are the records of a page rows of an owner's? -/
def ShowsOwn (s : Store) (owner : Ident) (q : Page) : Prop :=
  ∀ record ∈ q.records, ∃ r ∈ s.rows, owner.names r.owner ∧ record = r.toRecord

theorem showsOwn_page [Reader] (hs : s.Integral) {sel : Selection} {sort : Option Sorting}
    {page limit : Option Int} {q : Page} (h : s.page sel sort page limit = .ok q) :
    s.ShowsOwn sel.owner q := by
  obtain ⟨valid, order, rows, hvalid, -, hfinds, size, offset, hrecords⟩ :=
    finds_of_page h hs.rowIds
  intro record hrecord
  rw [hrecords] at hrecord
  obtain ⟨r, hr, rfl⟩ := List.mem_map.1 hrecord
  have hmem := ((hfinds.spec hs.rowIds).1 r).1 ((window_isInfix size offset rows).subset hr)
  have hcovers := hmem.2.covers
  rw [Selection.covers, Bool.and_eq_true, SameFor.owner_checked hvalid] at hcovers
  exact ⟨r, hmem.1, hcovers.1, rfl⟩

theorem showsOwn_datasetData [Reader] (hs : s.Integral) {dataset : Ident} {r : RowRequest}
    {q : Page}
    (h : s.datasetData owner dataset r = .ok q) : s.ShowsOwn owner q := by
  obtain ⟨d, -, h⟩ := Outcome.bind_eq_ok.1 h
  exact showsOwn_page hs h

theorem showsOwn_search [Reader] (hs : s.Integral) {r : SearchRequest} {q : Page}
    (h : s.search owner r = .ok q) : s.ShowsOwn owner q := by
  unfold Store.search at h
  split at h
  · split at h
    · cases h
    · obtain ⟨rows, -, h⟩ := Outcome.bind_eq_ok.1 h
      split at h
      · exact showsOwn_datasetData hs h
      · exact showsOwn_page hs h
  · cases h

/-- The last upload on a dashboard is the time of the latest of the owner's rows. -/
theorem lastUpload_of_dashboard {v : Dashboard} (h : s.dashboard owner = .ok v) (time : Nat) :
    v.lastUpload = some time ↔
      (∃ r ∈ s.rows, owner.names r.owner ∧ r.created = time) ∧
      ∀ r ∈ s.rows, owner.names r.owner → r.created ≤ time := by
  obtain ⟨datasets, -, h⟩ := Outcome.bind_eq_ok.1 h
  obtain ⟨⟨rows, lastUpload⟩, hstats, h⟩ := Outcome.bind_eq_ok.1 h
  obtain ⟨_, -, hstats⟩ := Outcome.bind_eq_ok.1 (during_eq_ok.1 hstats)
  cases h
  cases hstats
  rw [List.max?_eq_some_iff, List.forall_mem_map]
  simp only [List.mem_map, List.mem_filter, and_imp, and_assoc]

theorem mem_columns [Reader] {dataset sampleSize : Option Int} {cs : List Column}
    (h : s.columns owner dataset sampleSize = .ok cs) {c : Column} (hc : c ∈ cs) :
    ∃ d ∈ s.datasets, owner.names d.owner ∧ c.name ∈ d.columns := by
  obtain ⟨ds, hds, h⟩ := Outcome.bind_eq_ok.1 h
  obtain ⟨found, hfound, h⟩ := Outcome.bind_eq_ok.1 h
  cases h
  have hc := (perm_sortBy _ _).mem_iff.1 hc
  obtain ⟨place, hplace, hsampled⟩ := Outcome.exists_of_mem_mapM hfound hc
  obtain ⟨cells, -, hsampled⟩ := Outcome.bind_eq_ok.1 hsampled
  obtain ⟨kind, -, hsampled⟩ := Outcome.bind_eq_ok.1 hsampled
  cases hsampled
  obtain ⟨d, hd, hcolumn, -⟩ := mem_firstPlaces hplace
  obtain ⟨hmem, hown⟩ := mem_listedDatasets hds hd
  exact ⟨d, hmem, hown, hcolumn⟩

theorem mem_savedOf {dataset : Option Int} {cs : List SavedColumn}
    (h : s.savedOf owner dataset = .ok cs) {c : SavedColumn} (hc : c ∈ cs) :
    c ∈ s.saved ∧ owner.names c.owner := by
  obtain ⟨_, -, h⟩ := Outcome.bind_eq_ok.1 (during_eq_ok.1 h)
  cases h
  obtain ⟨hmem, hown⟩ := List.mem_filter.1 ((perm_sortBy _ _).mem_iff.1 hc)
  rw [Bool.and_eq_true] at hown
  exact ⟨hmem, hown.1⟩

/-- The names of evaluated columns are those of an owner's saved columns. -/
theorem mem_evaluateSaved [Reader] {dataset : Option Int} {rows : List Fields}
    {named : Named Formula.Batch} (h : s.evaluateSaved owner dataset rows = .ok named)
    {name : String} (hname : name ∈ named.names) :
    ∃ c ∈ s.saved, owner.names c.owner ∧ c.name = name := by
  obtain ⟨known, -, h⟩ := Outcome.bind_eq_ok.1 h
  obtain ⟨cs, hcs, h⟩ := Outcome.bind_eq_ok.1 h
  obtain ⟨batches, hbatches, h⟩ := Outcome.bind_eq_ok.1 h
  cases h
  obtain ⟨pair, hpair, rfl⟩ := List.mem_map.1 (Named.mem_names_ofPairs.1 hname)
  obtain ⟨c, hc, hbatch⟩ := Outcome.exists_of_mem_mapM hbatches hpair
  obtain ⟨batch, -, rfl⟩ := Outcome.map_eq_ok.1 hbatch
  obtain ⟨hmem, hown⟩ := mem_savedOf hcs hc
  exact ⟨c, hmem, hown, rfl⟩

/-- All that an owner is shown is the owner's, the time of the last upload too. -/
structure ShowsOnlyOwn [Reader] (s : Store) (owner : Ident) : Prop where
  page : ∀ dataset filters required sort page limit q,
    s.page ⟨owner, dataset, filters, required⟩ sort page limit = .ok q → s.ShowsOwn owner q
  ownerData : ∀ r q, s.ownerData owner r = .ok q → s.ShowsOwn owner q
  datasetData : ∀ dataset r q, s.datasetData owner dataset r = .ok q → s.ShowsOwn owner q
  search : ∀ r q, s.search owner r = .ok q → s.ShowsOwn owner q
  dataset : ∀ dataset d, s.dataset? owner dataset = .ok (some d) →
    d ∈ s.datasets ∧ owner.names d.owner
  datasetList : ∀ limit ds, s.datasetList owner limit = .ok ds →
    ∀ d ∈ ds, d ∈ s.datasets ∧ owner.names d.owner
  lastUpload : ∀ v, s.dashboard owner = .ok v → ∀ time,
    v.lastUpload = some time ↔
      (∃ r ∈ s.rows, owner.names r.owner ∧ r.created = time) ∧
      ∀ r ∈ s.rows, owner.names r.owner → r.created ≤ time
  columns : ∀ dataset sampleSize cs, s.columns owner dataset sampleSize = .ok cs →
    ∀ c ∈ cs, ∃ d ∈ s.datasets, owner.names d.owner ∧ c.name ∈ d.columns
  numericColumns : ∀ dataset cs, s.numericColumns owner dataset = .ok cs →
    ∀ c ∈ cs, ∃ d ∈ s.datasets, owner.names d.owner ∧ c.name ∈ d.columns
  chartRows : ∀ plotted sort limit rows,
    (s.chartSource owner).rows plotted sort limit = .ok rows →
    ∀ fields ∈ rows, ∃ r ∈ s.rows, owner.names r.owner ∧ fields = r.fields
  savedOf : ∀ dataset cs, s.savedOf owner dataset = .ok cs →
    ∀ c ∈ cs, c ∈ s.saved ∧ owner.names c.owner
  evaluateSaved : ∀ dataset rows named, s.evaluateSaved owner dataset rows = .ok named →
    ∀ name ∈ named.names, ∃ c ∈ s.saved, owner.names c.owner ∧ c.name = name

theorem Integral.showsOnlyOwn [Reader] (hs : s.Integral) (owner : Ident) :
    s.ShowsOnlyOwn owner where
  page _ _ _ _ _ _ _ h := showsOwn_page hs h
  ownerData _ _ h := showsOwn_page hs h
  datasetData _ _ _ h := showsOwn_datasetData hs h
  search _ _ h := showsOwn_search hs h
  dataset _ _ h := dataset?_eq_some h
  datasetList := by
    intro limit ds h d hd
    obtain ⟨all, hall, h⟩ := Outcome.bind_eq_ok.1 h
    obtain ⟨n, -, h⟩ := Outcome.bind_eq_ok.1 h
    cases h
    exact mem_datasetsOf hall ((upTo_isPrefix _ all).subset hd)
  lastUpload _ h := lastUpload_of_dashboard h
  columns _ _ _ h _ hc := mem_columns h hc
  numericColumns := by
    intro dataset cs h c hc
    obtain ⟨all, hall, h⟩ := Outcome.bind_eq_ok.1 h
    cases h
    exact mem_columns hall (List.mem_of_mem_filter hc)
  chartRows := by
    intro plotted sort limit rows h fields hfields
    obtain ⟨q, hq, rfl⟩ := Outcome.map_eq_ok.1 h
    obtain ⟨record, hrecord, rfl⟩ := List.mem_map.1 hfields
    obtain ⟨r, hr, hown, rfl⟩ := showsOwn_page hs hq record hrecord
    exact ⟨r, hr, hown, rfl⟩
  savedOf _ _ h _ hc := mem_savedOf h hc
  evaluateSaved _ _ _ h _ hname := mem_evaluateSaved h hname

/-- What others do, in any number of steps, with any ids, with success or not,
changes no answer to an owner.  All answers are those of a store with the owner's
things alone, and what is shown has been stored by the owner. -/
theorem owner_isolation [Reader] (hs : s.Reachable) (owner : Ident) :
    (∀ events : List Event, (∀ e ∈ events, e.caller ≠ some owner) →
      SameAnswers owner s (s.run events)) ∧
    SameAnswers owner s (s.only owner) ∧ s.ShowsOnlyOwn owner := by
  have hintegral := hs.integral
  refine ⟨fun events he => ?_, ?_, hintegral.showsOnlyOwn owner⟩
  · exact (SameFor.run s events he).sameAnswers hintegral (hintegral.run events)
  · exact (sameFor_only owner s).sameAnswers hintegral (hintegral.restrict _)

/-- Another owner deletes what is not theirs, and stores a table under an id that
was given before. -/
theorem owner_isolation_two :
    let u : Upload := ⟨[.text "a"], [[.bool true]], false⟩
    let s := empty.run [.ingest (some 1) (some "x") none u, .ingest (some 2) (some "y") none u]
    SameAnswers (some 1) s (s.run
      [.deleteDataset (some 2) (some 1), .deleteDataset (some 2) (some 2),
        .ingest (some 2) (some "z") none u, .deleteSaved (some 2) (some 1)]) ∧
      s.ShowsOnlyOwn (some 1) := by
  intro u s
  have hs : s.Reachable := ⟨_, rfl⟩
  obtain ⟨hothers, -, hown⟩ := owner_isolation hs (some 1)
  refine ⟨hothers _ ?_, hown⟩
  simp [Event.caller]

end Gridbook.Store
