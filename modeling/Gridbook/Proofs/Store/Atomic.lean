/-
Gridbook/Proofs/Store/Atomic.lean

Requests that fail leave no trace.  A transaction changes its tables statement by
statement, and what it has changed stands until it fails and all is undone: a
`Session` is a transaction with the store as it stands between its statements,
and the writes that span several statements are such sessions
(`transact_ingestSession`, `transact_deleteSession`).

A deletion finds out after its transaction that there was nothing to delete.  It
has deleted nothing then: what belongs to a dataset has the dataset's owner.

Main statement: whatever fails, the store afterwards is the store before
(`failed_request_unchanged`).
-/
import Gridbook.Chart.Build
import Gridbook.Proofs.Store.Integrity

namespace Gridbook

/-! ### Requests -/

/-- A question to the store. -/
inductive Reading where
  | page (dataset : Option Int) (filters : List Filter) (required : List String)
      (sort : Option Sorting) (page limit : Option Int)
  | rowCount (dataset : Option Int) (filters : List Filter) (required : List String)
  | ownerData (r : RowRequest)
  | datasetData (dataset : Ident) (r : RowRequest)
  | search (r : SearchRequest)
  | dataset (dataset : Ident)
  | datasetList (limit : Option Int)
  | dashboard
  | sample (dataset : Ident) (column : String) (limit : Option Int)
  | columns (dataset sampleSize : Option Int)
  | numericColumns (dataset : Option Int)
  | validateChart (r : ChartRequest)
  | generateChart (r : ChartRequest)
  | optimizeChart (r : ChartRequest)
  | generateOptimizedChart (r : ChartRequest)
  | previewChart (r : ChartRequest)
  | savedColumns (dataset : Option Int)
  | evaluateSaved (dataset : Option Int) (rows : List Fields)
deriving Repr

/-- What an owner asks of the store: a question, or a write. -/
inductive Request where
  | read (reading : Reading)
  | ingest (name filename : Option String) (upload : Upload)
  | deleteDataset (dataset : Ident)
  | save (dataset : Ident) (name : Option String) (formula : Cell)
  | deleteSaved (column : Ident)
deriving Repr

namespace Store

variable {s s' : Store} {owner dataset column : Ident}

/-- Has a reading an answer, or why has it none? -/
def read [Reader] (s : Store) (owner : Ident) : Reading → Except Error Unit
  | .page dataset filters required sort page limit =>
    discard (s.page ⟨owner, dataset, filters, required⟩ sort page limit)
  | .rowCount dataset filters required =>
    discard (s.rowCount ⟨owner, dataset, filters, required⟩)
  | .ownerData r => discard (s.ownerData owner r)
  | .datasetData dataset r => discard (s.datasetData owner dataset r)
  | .search r => discard (s.search owner r)
  | .dataset dataset => discard (s.dataset? owner dataset)
  | .datasetList limit => discard (s.datasetList owner limit)
  | .dashboard => discard (s.dashboard owner)
  | .sample dataset column limit => discard (s.sample dataset column limit)
  | .columns dataset sampleSize => discard (s.columns owner dataset sampleSize)
  | .numericColumns dataset => discard (s.numericColumns owner dataset)
  | .validateChart r => discard (r.validate (s.chartSource owner))
  | .generateChart r => discard (r.generate (s.chartSource owner))
  | .optimizeChart r => discard (r.optimize (s.chartSource owner))
  | .generateOptimizedChart r => discard (r.generateOptimized (s.chartSource owner))
  | .previewChart r => discard (r.preview (s.chartSource owner))
  | .savedColumns dataset => discard (s.savedOf owner dataset)
  | .evaluateSaved dataset rows => discard (s.evaluateSaved owner dataset rows)

/-- The outcome of an owner's request, and the store after it. -/
def serve [Reader] (s : Store) (owner : Ident) : Request → Written Unit
  | .read reading => (s.read owner reading, s)
  | .ingest name filename upload => (s.ingest owner name filename upload).map discard id
  | .deleteDataset dataset => s.deleteDataset owner dataset
  | .save dataset name formula => (s.save owner dataset name formula).map discard id
  | .deleteSaved column => s.deleteSaved owner column

/-! ### Deletions that find nothing -/

/-- A deletion fails either in its transaction or because nothing was deleted. -/
theorem deleted_eq_error {what : Absent} {x : Except Error (Bool × Store)} {e : Error}
    (h : deleted what (s.commit x) = (.error e, s')) :
    (x = .error e ∧ s' = s) ∨ x = .ok (false, s') := by
  rcases x with e' | ⟨b, t⟩
  · cases h
    exact .inl ⟨rfl, rfl⟩
  · cases b with
    | false => cases h; exact .inr rfl
    | true => cases congrArg Prod.fst h

/-- The store itself does not say that something is absent. -/
theorem during_ne_absent {α : Type} {activity : Activity} {what : Absent} (x : Except Failure α) :
    during activity x ≠ .error (.absent what) := by
  rcases x with f | a
  · cases f <;> nofun
  · nofun

/-- A dataset that no one has is nobody's: there is nothing to take away. -/
theorem Integral.without_eq (hs : s.Integral)
    (h : ∀ d ∈ s.datasets, ¬ (dataset.names d.id && owner.names d.owner) = true) :
    s.without owner dataset = s := by
  have hkept : ∀ {α : Type} (as : List α) (p : α → Bool), (∀ a ∈ as, ¬ p a = true) →
      as.filter (fun a => !p a) = as := by
    intro α as p hp
    refine List.filter_eq_self.2 fun a ha => ?_
    rw [Bool.not_eq_true', Bool.eq_false_iff]
    exact hp a ha
  -- a row or a saved column would belong to such a dataset
  have hrows := hkept s.rows (fun r => dataset.names r.dataset && owner.names r.owner) <| by
    intro r hr
    obtain ⟨d, hd, hid, howner⟩ := hs.rowOwned r hr
    rw [← hid, ← howner]
    exact h d hd
  have hsaved := hkept s.saved (fun c => dataset.names c.dataset && owner.names c.owner) <| by
    intro c hc
    obtain ⟨d, hd, hid, howner⟩ := hs.savedOwned c hc
    rw [← hid, ← howner]
    exact h d hd
  have hdatasets := hkept s.datasets _ h
  rw [without, Store.restrict, hrows, hsaved, hdatasets]

theorem deleteStatements_eq_ok {b : Bool}
    (h : s.deleteStatements owner dataset = .ok (b, s')) :
    s' = s.without owner dataset ∧
      b = s.datasets.any fun d => dataset.names d.id && owner.names d.owner := by
  have h := during_eq_ok.1 h
  obtain ⟨_, -, h⟩ := Outcome.bind_eq_ok.1 h
  obtain ⟨_, -, h⟩ := Outcome.bind_eq_ok.1 h
  obtain ⟨_, -, h⟩ := Outcome.bind_eq_ok.1 h
  cases h
  exact ⟨rfl, rfl⟩

theorem deleteSavedStatement_eq_ok {b : Bool}
    (h : s.deleteSavedStatement owner column = .ok (b, s')) :
    s' = s.withoutSaved owner column ∧
      b = s.saved.any fun c => column.names c.id && owner.names c.owner := by
  obtain ⟨_, -, h⟩ := Outcome.bind_eq_ok.1 (during_eq_ok.1 h)
  cases h
  exact ⟨rfl, rfl⟩

theorem Integral.deleteDataset_error (hs : s.Integral) {e : Error}
    (h : s.deleteDataset owner dataset = (.error e, s')) : s' = s := by
  rcases deleted_eq_error h with ⟨-, h⟩ | h
  · exact h
  · obtain ⟨rfl, hnone⟩ := deleteStatements_eq_ok h
    refine hs.without_eq fun d hd hnamed => ?_
    exact absurd (List.any_eq_true.2 ⟨d, hd, hnamed⟩) (Bool.eq_false_iff.1 hnone.symm)

theorem deleteSaved_error {e : Error} (h : s.deleteSaved owner column = (.error e, s')) :
    s' = s := by
  rcases deleted_eq_error h with ⟨-, h⟩ | h
  · exact h
  · obtain ⟨rfl, hnone⟩ := deleteSavedStatement_eq_ok h
    have hkept : s.saved.filter (fun c => !(column.names c.id && owner.names c.owner)) =
        s.saved := by
      refine List.filter_eq_self.2 fun c hc => ?_
      rw [Bool.not_eq_true', Bool.eq_false_iff]
      exact fun hnamed =>
        absurd (List.any_eq_true.2 ⟨c, hc, hnamed⟩) (Bool.eq_false_iff.1 hnone.symm)
    rw [withoutSaved, hkept]

/-! ### Transactions statement by statement -/

/-- A transaction on its way: each statement may fail, and then the store stands
as the statements before it have left it. -/
abbrev Session (α : Type) := ExceptT Error (StateM Store) α

namespace Session

variable {α β : Type}

/-- A step that may fail and changes nothing. -/
def check (x : Except Error α) : Session α :=
  ExceptT.mk (pure x)

/-- A statement that changes the store. -/
def execute (f : Store → Store) : Session Unit :=
  modify f

/-- Undo what a transaction has done if it has failed. -/
def settle (before : Store) : Written α → Written α
  | (.ok a, s) => (.ok a, s)
  | (.error e, _) => (.error e, before)

/-- Run a transaction, all or nothing. -/
def transact (s : Store) (t : Session α) : Written α :=
  settle s (t.run.run s)

theorem settle_check {before : Store} (x : Except Error α) (f : α → Session β) :
    settle before ((check x >>= f).run.run s) =
      match x with
      | .ok a => settle before ((f a).run.run s)
      | .error e => (.error e, before) := by
  cases x with
  | ok a => rfl
  | error e => rfl

theorem settle_get {before : Store} (f : Store → Session β) :
    settle before ((get >>= f).run.run s) = settle before ((f s).run.run s) :=
  rfl

theorem settle_execute {before : Store} (change : Store → Store) (f : Unit → Session β) :
    settle before ((execute change >>= f).run.run s) =
      settle before ((f ()).run.run (change s)) :=
  rfl

/-- Insert rows one by one. -/
def insertRows : List Row → Session Unit
  | [] => pure ()
  | r :: rows => do
    execute fun s => { s with rows := s.rows ++ [r] }
    insertRows rows

theorem settle_insertRows {before : Store} (rows : List Row) (f : Unit → Session β) :
    settle before ((insertRows rows >>= f).run.run s) =
      settle before ((f ()).run.run { s with rows := s.rows ++ rows }) := by
  induction rows generalizing s with
  | nil => rw [List.append_nil]; rfl
  | cons r rows ih =>
    rw [insertRows, bind_assoc, settle_execute, ih, List.append_assoc, List.singleton_append]

end Session

open Session

/-- The statements that store a table: the dataset is inserted first, its rows
are converted then, and inserted one by one. -/
def ingestSession (owner : Ident) (name filename : Option String) (u : Upload) :
    Session Dataset := do
  let cells ← check (Error.ofConversion u.cells)
  let columns ← check (Error.ofConversion u.columns)
  let s ← get
  check (during .transaction (s.statement [.datasets] owner.toList))
  let owner ← check (during .transaction (present owner))
  let name ← check (during .transaction (present name))
  let dataset : Dataset := {
    id := nextId (s.datasets.map (·.id))
    owner, name, filename
    rowCount := u.rows.length
    columnCount := columns.length
    columns
    uploaded := s.clock }
  execute fun s => { s with datasets := s.datasets ++ [dataset] }
  let fields ← check (Error.ofConversion (u.fields cells))
  let fields ← check (s.rowStatements fields)
  insertRows (newRows owner dataset.id (nextId (s.rows.map (·.id))) (s.clock + 1) fields)
  execute fun s => { s with clock := s.clock + 1 + fields.length }
  return dataset

/-- The statements that delete a dataset, one for each table. -/
def deleteSession (owner dataset : Ident) : Session Bool := do
  let s ← get
  let bound := dataset.toList ++ owner.toList
  check (during .transaction (s.statement [.rows] bound))
  execute fun s => { s with
    rows := s.rows.filter fun r => !(dataset.names r.dataset && owner.names r.owner) }
  check (during .transaction (s.statement [.savedColumns] bound))
  execute fun s => { s with
    saved := s.saved.filter fun c => !(dataset.names c.dataset && owner.names c.owner) }
  check (during .transaction (s.statement [.datasets] bound))
  execute fun s => { s with
    datasets := s.datasets.filter fun d => !(dataset.names d.id && owner.names d.owner) }
  return s.datasets.any fun d => dataset.names d.id && owner.names d.owner

theorem commit_bind {α β : Type} (x : Except Error α) (f : α → Except Error (β × Store)) :
    s.commit (x >>= f) =
      match x with
      | .ok a => s.commit (f a)
      | .error e => (.error e, s) := by
  cases x with
  | ok a => rfl
  | error e => rfl

theorem transact_ingestSession (s : Store) (owner : Ident) (name filename : Option String)
    (u : Upload) :
    transact s (ingestSession owner name filename u) = s.ingest owner name filename u := by
  rw [transact, ingestSession, ingest, ingestStatements]
  rw [settle_check, commit_bind]
  cases Error.ofConversion u.cells with
  | error e => rfl
  | ok cells =>
  dsimp only
  rw [settle_check, commit_bind]
  cases Error.ofConversion u.columns with
  | error e => rfl
  | ok columns =>
  dsimp only
  rw [settle_get, settle_check, commit_bind]
  cases during .transaction (s.statement [.datasets] owner.toList) with
  | error e => rfl
  | ok _ =>
  dsimp only
  rw [settle_check, commit_bind]
  cases during .transaction (present owner) with
  | error e => rfl
  | ok owner =>
  dsimp only
  rw [settle_check, commit_bind]
  cases during .transaction (present name) with
  | error e => rfl
  | ok name =>
  dsimp only
  -- from here on the dataset is there, up to the first failure
  rw [settle_execute, settle_check, commit_bind]
  cases Error.ofConversion (u.fields cells) with
  | error e => rfl
  | ok raw =>
  dsimp only
  rw [settle_check, commit_bind]
  cases s.rowStatements raw with
  | error e => rfl
  | ok fields =>
  dsimp only
  rw [settle_insertRows, settle_execute]
  rfl

theorem transact_deleteSession (s : Store) (owner dataset : Ident) :
    transact s (deleteSession owner dataset) = s.commit (s.deleteStatements owner dataset) := by
  have hbind : ∀ {α β : Type} (x : Except Failure α) (f : α → Except Failure β),
      during .transaction (x >>= f) = during .transaction x >>= fun a => during .transaction (f a) := by
    intro α β x f
    cases x with
    | ok a => rfl
    | error e => rfl
  rw [transact, deleteSession, deleteStatements]
  rw [settle_get, settle_check, hbind, commit_bind]
  cases during .transaction (s.statement [.rows] (dataset.toList ++ owner.toList)) with
  | error e => rfl
  | ok _ =>
  dsimp only
  rw [settle_execute, settle_check, hbind, commit_bind]
  cases during .transaction (s.statement [.savedColumns] (dataset.toList ++ owner.toList)) with
  | error e => rfl
  | ok _ =>
  dsimp only
  rw [settle_execute, settle_check, hbind, commit_bind]
  cases during .transaction (s.statement [.datasets] (dataset.toList ++ owner.toList)) with
  | error e => rfl
  | ok _ => rfl

/-! ### Tables that cannot be stored -/

/-- A table is stored only if every cell of every row has a stored form, those
apart that a later cell of the same label overrides. -/
theorem toStored_of_stores {u : Upload} {fields : List Fields} (h : u.Stores fields)
    {cells : List (List Cell)} (hcells : u.cells = .ok cells) {row : List Cell} (hrow : row ∈ cells)
    {p : Cell × Cell} (hp : p ∈ Upload.byLabel (u.labels.zip row)) : ∃ c, p.2.toStored = .ok c := by
  obtain ⟨cells', raw, hcells', hraw, -⟩ := h
  cases hcells.symm.trans hcells'
  have hlabels : ¬ u.labels.isEmpty = true := by
    intro hempty
    rw [List.isEmpty_iff.1 hempty] at hp
    cases hp
  rw [Upload.fields, if_neg hlabels] at hraw
  obtain ⟨named, -, hnamed⟩ := Outcome.ok_of_mem_mapM hraw hrow
  obtain ⟨pairs, hpairs, -⟩ := Outcome.bind_eq_ok.1 hnamed
  obtain ⟨_, -, hcell⟩ := Outcome.ok_of_mem_mapM hpairs hp
  obtain ⟨c, hc, -⟩ := Outcome.map_eq_ok.1 hcell
  exact ⟨c, hc⟩

theorem ingest_of_unconvertible (s : Store) (owner : Ident) (name filename : Option String)
    {u : Upload} {cells : List (List Cell)} (hcells : u.cells = .ok cells) {row : List Cell}
    (hrow : row ∈ cells) {p : Cell × Cell} (hp : p ∈ Upload.byLabel (u.labels.zip row))
    {f : Cell.Fault} (hf : p.2.toStored = .error f) :
    ∃ e, s.ingest owner name filename u = (.error e, s) := by
  rcases hingest : s.ingest owner name filename u with ⟨e | d, s'⟩
  · exact ⟨e, by rw [commit_error hingest]⟩
  · obtain ⟨-, -, fields, hstores, -⟩ := ingest_eq_ok hingest
    obtain ⟨c, hc⟩ := toStored_of_stores hstores hcells hrow hp
    cases hf.symm.trans hc

/-! ### All or nothing -/

theorem commit_discard_error {α : Type} {x : Except Error (α × Store)} {e : Error}
    (h : (s.commit x).map discard id = (.error e, s')) : s' = s := by
  rcases x with e' | ⟨a, t⟩
  · exact (congrArg Prod.snd h).symm
  · cases congrArg Prod.fst h

/-- One case for each kind of request: a reading has no store to give back, a write
either commits or is undone, and a deletion may also have found nothing. -/
theorem Integral.serve_error [Reader] (hs : s.Integral) {q : Request} {e : Error}
    (h : s.serve owner q = (.error e, s')) : s' = s := by
  cases q with
  | read reading => exact (congrArg Prod.snd h).symm
  | ingest name filename u => exact commit_discard_error h
  | deleteDataset dataset => exact hs.deleteDataset_error h
  | save dataset name formula => exact commit_discard_error h
  | deleteSaved column => exact deleteSaved_error h

/-- No request that fails changes a reachable store, whatever fails and whenever:
the writes are run statement by statement and undone when one fails.  A table
with a cell in whatever row that has no stored form is not stored at all; a
deletion that finds no dataset had nothing to delete, in any of the tables. -/
theorem failed_request_unchanged [Reader] (hs : s.Reachable) (owner : Ident) :
    (∀ (q : Request) e s', s.serve owner q = (.error e, s') → s' = s) ∧
    (∀ name filename u,
      s.ingest owner name filename u = transact s (ingestSession owner name filename u)) ∧
    (∀ dataset,
      s.deleteDataset owner dataset = deleted .dataset (transact s (deleteSession owner dataset))) ∧
    (∀ name filename (u : Upload) cells row label c f, u.cells = .ok cells → row ∈ cells →
      (label, c) ∈ Upload.byLabel (u.labels.zip row) → c.toStored = .error f →
      ∃ e, s.serve owner (.ingest name filename u) = (.error e, s)) ∧
    (∀ dataset s', s.serve owner (.deleteDataset dataset) = (.error (.absent .dataset), s') →
      s' = s ∧ s.without owner dataset = s) := by
  have hintegral := hs.integral
  refine ⟨fun q e s' h => hintegral.serve_error h, ?_, ?_, ?_, fun dataset s' h => ?_⟩
  · exact fun name filename u => (transact_ingestSession s owner name filename u).symm
  · intro dataset
    rw [deleteDataset, transact_deleteSession]
  · intro name filename u cells row label c f hcells hrow hcell hf
    obtain ⟨e, h⟩ := ingest_of_unconvertible s owner name filename hcells hrow hcell hf
    exact ⟨e, by rw [serve, h]; rfl⟩
  · have hunchanged := hintegral.serve_error h
    refine ⟨hunchanged, ?_⟩
    rcases deleted_eq_error h with ⟨hx, -⟩ | hx
    · exact absurd hx (during_ne_absent _)
    · rw [← (deleteStatements_eq_ok hx).1, hunchanged]

/-- The second row of a table holds a list of two, and one owner deletes what is
another's: nothing changes. -/
theorem failed_request_unchanged_two :
    let u : Upload := ⟨[.text "a"], [[.bool true], [.list [.null, .null]]], false⟩
    let s := empty.run [.ingest (some 1) (some "t") none ⟨[.text "a"], [[.null]], false⟩]
    s.Reachable ∧ s.rows.length = 1 ∧
      (∃ e, s.serve (some 2) (.ingest (some "u") none u) = (.error e, s)) ∧
      s.serve (some 2) (.deleteDataset (some 1)) = (.error (.absent .dataset), s) := by
  intro u s
  have hs : s.Reachable := ⟨_, rfl⟩
  obtain ⟨hsame, -, -, hrows, -⟩ := failed_request_unchanged hs (some 2)
  refine ⟨hs, rfl, ?_, ?_⟩
  · exact hrows _ _ u _ [.list [.null, .null]] (.text "a") _ .badValue rfl
      (List.mem_cons_of_mem _ List.mem_cons_self) List.mem_cons_self rfl
  · have hdeleted : (s.serve (some 2) (.deleteDataset (some 1))).1 =
        .error (.absent .dataset) := rfl
    exact Prod.ext hdeleted (hsame _ _ _ (Prod.ext hdeleted rfl))

end Store

end Gridbook
