/-
Gridbook/Proofs/Query/Reading.lean

Readings that are answered.  Where an owner's tables have been tame, all that the
owner asks for in order is answered, whatever has happened to the store: counts,
pages, samples, columns, and the checks of charts.  One stored row that cannot be
looked into is enough, on the other hand, to fail every count with a condition
that comes to it.

Main statements: `answering_of_tame`, and `rowCount_error_of_malformed`.
-/
import Gridbook.Chart.Validation
import Gridbook.Proofs.Isolation
import Gridbook.Proofs.Store.Answering
import Gridbook.Proofs.Store.Readable

namespace Gridbook

/-! ### Kinds -/

theorem Kind.exists_isNumeric {c : Cell} (h : c.isWithin) : ∃ b, isNumeric c = .ok b := by
  unfold Cell.isWithin at h
  unfold isNumeric
  cases hplain : c.plain with
  | number n =>
    rw [hplain] at h
    obtain ⟨x, hx⟩ := Option.isSome_iff_exists.1 h
    refine ⟨!x.isNaN, Outcome.map_eq_ok.2 ⟨x, ?_, rfl⟩⟩
    unfold Cell.realOfNumber
    rw [hx]
  | _ => exact ⟨_, rfl⟩

/-- Cells within the doubles have a kind. -/
theorem Kind.exists_ofCells {cells : List Cell} (h : ∀ c ∈ cells, c.isWithin) :
    ∃ k, ofCells cells = .ok k := by
  obtain ⟨numeric, hnumeric⟩ := Outcome.exists_mapM_eq_ok fun c hc => exists_isNumeric (h c hc)
  have hkind : ∃ k, (if isMost (numeric.count true) cells.length then .ok number
      else if isMost (cells.countP isDate) cells.length then .ok date
      else .ok text : Except Cell.Fault Kind) = .ok k := by
    split
    · exact ⟨_, rfl⟩
    split
    · exact ⟨_, rfl⟩
    · exact ⟨_, rfl⟩
  obtain ⟨k, hk⟩ := hkind
  exact ⟨k, Outcome.bind_eq_ok.2 ⟨numeric, hnumeric, hk⟩⟩

theorem Fields.Readable.isWithin_cell {fields : Fields} (h : fields.Readable) (column : String) :
    (fields.cell column).isWithin := by
  rw [Fields.cell]
  cases hlookup : fields.lookup column with
  | none => rfl
  | some c =>
    obtain ⟨before, rest, hfields, -⟩ := List.lookup_eq_some_iff.1 hlookup
    exact h.within (column, c) (hfields ▸ List.mem_append_right before List.mem_cons_self)

/-- Sound filters have no problems. -/
theorem Filter.problems_of_sound {fs : List Filter} (h : ∀ f ∈ fs, f.Sound) :
    problems fs = .ok [] := by
  induction fs with
  | nil => rfl
  | cons f fs ih =>
    obtain ⟨-, valid, -, -, hvalid, -⟩ := h f List.mem_cons_self
    rw [problems, hvalid]
    exact ih fun g hg => h g (List.mem_cons_of_mem f hg)

/-- A chart request is judged where its filters, its columns and its rows are
known. -/
theorem ChartRequest.exists_verdict {r : ChartRequest} {source : ChartSource} {ps : List Problem}
    (hfilters : Filter.problems r.filters = .ok ps) {columns : List Column}
    (hcolumns : source.columns r.dataset = .ok columns) {n : Int}
    (hcount : source.count r.plotted = .ok n) : ∃ v, r.validate source = .ok v := by
  let problems := r.formProblems ++ ps ++ r.columnProblems columns
  by_cases hsound : problems.isEmpty
  · refine ⟨⟨problemIf (n = 0) .noData, r.columnWarnings columns ++ rowWarnings n⟩, ?_⟩
    refine Outcome.bind_eq_ok.2 ⟨ps, hfilters, Outcome.bind_eq_ok.2 ⟨columns, hcolumns, ?_⟩⟩
    exact (if_pos hsound).trans (Outcome.bind_eq_ok.2 ⟨n, hcount, rfl⟩)
  · refine ⟨⟨problems, r.columnWarnings columns⟩, ?_⟩
    refine Outcome.bind_eq_ok.2 ⟨ps, hfilters, Outcome.bind_eq_ok.2 ⟨columns, hcolumns, ?_⟩⟩
    exact if_neg hsound

namespace Store

variable {s : Store} {owner : Ident}

/-! ### Answers -/

/-- Has every reading of an owner that is in order an answer? -/
structure Answering [Reader] (s : Store) (owner : Ident) : Prop where
  rowCount : ∀ sel : Selection, sel.owner = owner → sel.Sound → ∃ n, s.rowCount sel = .ok n
  page : ∀ (sel : Selection) sort order (page limit : Int), sel.owner = owner → sel.Sound →
    Sorting.order sort = .ok order → order.Sound → 1 ≤ page → 1 ≤ limit → limit < 2 ^ 63 →
    (page - 1) * limit < 2 ^ 63 → ∃ q, s.page sel sort (some page) (some limit) = .ok q
  sample : ∀ d ∈ s.datasets, owner.names d.owner → ∀ column limit, Path.isPlain column →
    (∀ n ∈ limit, fitsWord n) → ∃ cells, s.sample (some (d.id : Int)) column limit = .ok cells
  columns : ∀ dataset sampleSize, (∀ n ∈ dataset, fitsWord n) → (∀ n ∈ sampleSize, fitsWord n) →
    ∃ cs, s.columns owner dataset sampleSize = .ok cs
  validate : ∀ r : ChartRequest, Selection.Sound ⟨owner, r.dataset, r.filters, r.axes⟩ →
    ∃ v, r.validate (s.chartSource owner) = .ok v

namespace Presentable

variable (h : s.Presentable owner)

include h

theorem hasTable (t : Table) : s.hasTable t := by
  rw [Store.hasTable, h.tables]
  rfl

theorem legible {sel : Selection} (hsel : sel.owner = owner) : s.Legible sel := by
  refine ⟨h.hasTable .rows, fun r hr hcovers => ?_⟩
  rw [Selection.covers, Bool.and_eq_true, hsel] at hcovers
  exact (h.rows r hr hcovers.1).wellFormed

theorem exists_rowCount [Reader] {sel : Selection} (hsel : sel.owner = owner) (hsound : sel.Sound) :
    ∃ n, s.rowCount sel = .ok n := by
  obtain ⟨valid, ops, conds, found, hvalid, hops, hconds, hfound, -⟩ :=
    exists_found hsound (h.legible hsel)
  have hcount : s.count valid = .ok found.length :=
    count_eq_ok.2 ⟨ops, conds, found, hops, hconds, hfound, rfl⟩
  exact ⟨found.length, rowCount_eq_ok.2 ⟨valid, hvalid, hcount⟩⟩

/-- What a sample of an owner's dataset shows are values of readable rows. -/
theorem exists_sample [Reader] (hs : s.Integral) {d : Dataset} (hd : d ∈ s.datasets)
    (hown : owner.names d.owner) (hid : fitsWord d.id) {column : String} {limit : Option Int}
    (hcolumn : Path.isPlain column) (hlimit : ∀ n ∈ limit, fitsWord n) :
    ∃ cells, s.sample (some (d.id : Int)) column limit = .ok cells ∧ ∀ c ∈ cells, c.isWithin := by
  have hrows : ∀ r ∈ s.rows, Ident.names (some (d.id : Int)) r.dataset → r.fields.Readable := by
    intro r hr hnames
    have hdataset : r.dataset = d.id := (Int.ofNat.inj (Option.some.inj (names_iff.1 hnames))).symm
    refine h.rows r hr ?_
    rw [hs.owner_eq hd hr hdataset]
    exact hown
  have hdataset : ∀ n ∈ some (d.id : Int), fitsWord n := by
    intro n hn
    cases hn
    exact hid
  obtain ⟨cells, hsample, hcells⟩ := Store.exists_sample hcolumn hdataset hlimit (h.hasTable .rows)
    fun r hr hnames => (hrows r hr hnames).wellFormed
  refine ⟨cells, hsample, fun c hc => ?_⟩
  obtain ⟨-, r, hr, hnames, rfl⟩ := hcells c hc
  exact (hrows r hr hnames).isWithin_cell column

theorem exists_listedDatasets (howner : ∀ n ∈ owner, fitsWord n) {dataset : Option Int}
    (hdataset : ∀ n ∈ dataset, fitsWord n) : ∃ ds, s.listedDatasets owner dataset = .ok ds := by
  cases dataset with
  | none =>
    have hstatement : s.statement [.datasets] (Option.toList none ++ owner.toList) = .ok () :=
      statement_of_idents (h.hasTable .datasets) hdataset howner
    exact ⟨_, during_eq_ok.2 (Outcome.bind_eq_ok.2 ⟨(), hstatement, rfl⟩)⟩
  | some id =>
    have hstatement : s.statement [.datasets] (Option.toList (some id) ++ owner.toList) = .ok () :=
      statement_of_idents (h.hasTable .datasets) hdataset howner
    have hfound : s.dataset? owner (some id) = .ok (s.datasets.find? fun d =>
        Ident.names (some id) d.id && owner.names d.owner) :=
      during_eq_ok.2 (Outcome.bind_eq_ok.2 ⟨(), hstatement, rfl⟩)
    exact ⟨_, Outcome.bind_eq_ok.2 ⟨_, hfound, rfl⟩⟩

theorem exists_columns [Reader] (hs : s.Integral) (howner : ∀ n ∈ owner, fitsWord n)
    (hids : ∀ d ∈ s.datasets, fitsWord d.id) {dataset sampleSize : Option Int}
    (hdataset : ∀ n ∈ dataset, fitsWord n) (hsize : ∀ n ∈ sampleSize, fitsWord n) :
    ∃ cs, s.columns owner dataset sampleSize = .ok cs := by
  obtain ⟨ds, hds⟩ := h.exists_listedDatasets howner hdataset
  have hsampled : ∀ place ∈ firstPlaces ds, ∃ c, s.sampledColumn sampleSize place = .ok c := by
    intro place hplace
    obtain ⟨d, hd, hname, hid⟩ := mem_firstPlaces hplace
    obtain ⟨hmem, hown⟩ := mem_listedDatasets hds hd
    obtain ⟨cells, hcells, hwithin⟩ := h.exists_sample hs hmem hown (hids d hmem)
      (h.columns d hmem hown _ hname) hsize
    obtain ⟨kind, hkind⟩ := Kind.exists_ofCells hwithin
    refine ⟨⟨place.1, kind⟩, Outcome.bind_eq_ok.2 ⟨cells, ?_, ?_⟩⟩
    · rw [hid]
      exact hcells
    · exact Outcome.bind_eq_ok.2 ⟨kind, ofConversion_eq_ok.2 hkind, rfl⟩
  obtain ⟨found, hfound⟩ := Outcome.exists_mapM_eq_ok hsampled
  exact ⟨_, Outcome.bind_eq_ok.2 ⟨ds, hds, Outcome.bind_eq_ok.2 ⟨found, hfound, rfl⟩⟩⟩

theorem exists_verdict [Reader] (hs : s.Integral) (hids : ∀ d ∈ s.datasets, fitsWord d.id)
    {r : ChartRequest} (hr : Selection.Sound ⟨owner, r.dataset, r.filters, r.axes⟩) :
    ∃ v, r.validate (s.chartSource owner) = .ok v := by
  have hsize : ∀ n ∈ some defaultSampleSize, fitsWord n := by
    intro n hn
    cases hn
    decide
  obtain ⟨columns, hcolumns⟩ := h.exists_columns hs hr.owner hids hr.dataset hsize
  obtain ⟨n, hn⟩ := h.exists_rowCount rfl hr
  have hcount : (s.chartSource owner).count r.plotted = .ok (n : Int) :=
    Outcome.map_eq_ok.2 ⟨n, hn, rfl⟩
  exact ChartRequest.exists_verdict (Filter.problems_of_sound hr.filters) hcolumns hcount

end Presentable

theorem Presentable.answering [Reader] (h : s.Presentable owner) (hs : s.Integral)
    (howner : ∀ n ∈ owner, fitsWord n) (hids : ∀ d ∈ s.datasets, fitsWord d.id) :
    s.Answering owner where
  rowCount _ hsel hsound := h.exists_rowCount hsel hsound
  page := by
    intro sel sort order page limit hsel hsound hsort horder hpage hlimit hfits hoffset
    obtain ⟨valid, rows, hvalid, hfinds⟩ := exists_finds hsound horder (h.legible hsel) hs.rowIds
    exact ⟨_, page_of_finds hvalid hsort hfinds hpage hlimit hfits hoffset⟩
  sample _ hd hown _ _ hcolumn hlimit := by
    obtain ⟨cells, hcells, -⟩ := h.exists_sample hs hd hown (hids _ hd) hcolumn hlimit
    exact ⟨cells, hcells⟩
  columns _ _ hdataset hsize := h.exists_columns hs howner hids hdataset hsize
  validate _ hr := h.exists_verdict hs hids hr

/-- Whatever happens to a store, all readings of an owner that are in order are
answered, if the tables that the owner has stored are tame. -/
theorem answering_of_tame [Reader] {events : List Event} (he : ∀ e ∈ events, e.Tame owner)
    (howner : ∀ n ∈ owner, fitsWord n) (hids : ∀ d ∈ (empty.run events).datasets, fitsWord d.id) :
    (empty.run events).Answering owner := by
  have hs : (empty.run events).Reachable := ⟨events, rfl⟩
  exact ((presentable_empty owner).run he).answering hs.integral howner hids

/-- One owner's rows are read, whatever another owner has stored. -/
theorem answering_of_tame_one :
    let u : Upload := ⟨[.text "a"], [[.bool true], [.list [.text "x"]], [.number (.real (0 / 0))]],
      false⟩
    let v : Upload := ⟨[.text "a"], [[.number (.real (1 / 0))]], false⟩
    let s := empty.run [.ingest (some 1) (some "x") none u, .ingest (some 2) (some "y") none v]
    (∃ n, s.rowCount ⟨some 1, none, [], ["a"]⟩ = .ok n) ∧
      ∃ cs, s.columns (some 1) none (some 10) = .ok cs := by
  intro u v s
  have hword : ∀ i ∈ [1, 10], ∀ n ∈ some (i : Int), fitsWord n := by decide
  have htame : ∀ e ∈ [Event.ingest (some 1) (some "x") none u, .ingest (some 2) (some "y") none v],
      e.Tame (some 1) := by
    have hnan : Cell.Tame (.number (.real (0 / 0))) :=
      .inl (congrArg Except.ok (by decide +kernel : (0 / 0 : Float).isNaN = true))
    refine List.forall_mem_cons.2 ⟨fun _ => ⟨?_, ?_⟩, List.forall_mem_singleton.2 nofun⟩
    · intro cells hcells
      cases hcells
      exact List.forall_mem_cons.2 ⟨List.forall_mem_singleton.2 (.inr ⟨rfl, rfl⟩),
        List.forall_mem_cons.2 ⟨List.forall_mem_singleton.2 (.inr ⟨rfl, rfl⟩),
          List.forall_mem_singleton.2 (List.forall_mem_singleton.2 hnan)⟩⟩
    · intro names hnames
      cases hnames
      exact List.forall_mem_singleton.2 (by decide)
  have hids : ∀ d ∈ s.datasets, fitsWord d.id := by decide +kernel
  have hanswering := answering_of_tame htame (hword 1 (by decide)) hids
  refine ⟨hanswering.rowCount _ rfl ⟨hword 1 (by decide), nofun, nofun, ?_⟩, ?_⟩
  · exact List.forall_mem_singleton.2 (by decide)
  · exact hanswering.columns none (some 10) nofun (hword 10 (by decide))

/-! ### Rows that cannot be looked into -/

/-- A row that cannot be looked into leaves no answer to any count that covers it
and has a condition. -/
theorem rowCount_error_of_malformed [Reader] {r : Row} (hr : r ∈ s.rows)
    (hmalformed : Native.wellFormedMembers r.fields = false) {sel : Selection} (hsel : sel.covers r)
    (hconditions : sel.filters ≠ [] ∨ sel.required ≠ []) : ¬ ∃ n, s.rowCount sel = .ok n := by
  rintro ⟨n, h⟩
  obtain ⟨valid, hvalid, hcount⟩ := rowCount_eq_ok.1 h
  obtain ⟨ops, conds, found, hops, hconds, hfound, -⟩ := count_eq_ok.1 hcount
  obtain ⟨filters, hfilters, hvalid⟩ := Outcome.bind_eq_ok.1 hvalid
  cases hvalid
  obtain ⟨b, hb⟩ := exists_allHold_of_meeting hfound r (List.mem_filter.2 ⟨hr, hsel⟩)
  obtain ⟨cs, hcs, rfl⟩ := conditions_eq_ok hconds
  -- there are as many conditions as filters and required columns
  have hlength : cs.length = sel.filters.length :=
    (hcs.length_eq.symm.trans (comparisons_eq_ok hops).length_eq.symm).trans
      (Outcome.mapM_eq_ok.1 hfilters).length_eq.symm
  cases hall : cs ++ sel.required.map Condition.present with
  | nil =>
    obtain ⟨hcs, hrequired⟩ := List.append_eq_nil_iff.1 hall
    rw [hcs] at hlength
    rcases hconditions with h | h
    · exact h (List.length_eq_zero_iff.1 hlength.symm)
    · exact h (List.map_eq_nil_iff.1 hrequired)
  | cons c conds =>
    rw [hall] at hb
    obtain ⟨_, hc, -⟩ := Outcome.bind_eq_ok.1 hb
    obtain ⟨_, hextract, -⟩ := Outcome.bind_eq_ok.1 hc
    rw [Native.extract, hmalformed] at hextract
    cases hextract

/-- A table with an infinity in it is stored, and then the owner's older row
cannot be counted by its column any more. -/
theorem infinite_cell_breaks_count :
    let old : Upload := ⟨[.text "b"], [[.bool true]], false⟩
    let new : Upload := ⟨[.text "a"], [[.number (.real (1 / 0))]], false⟩
    let s := empty.run [.ingest (some 1) (some "old") none old]
    s.rowCount ⟨some 1, none, [], ["b"]⟩ = .ok 1 ∧
      ∃ d s', s.ingest (some 1) (some "new") none new = (.ok d, s') ∧
        ¬ ∃ n, s'.rowCount ⟨some 1, none, [], ["b"]⟩ = .ok n := by
  intro old new s
  let stored := s.ingest (some 1) (some "new") none new
  have hok : stored.1.isOk = true := by decide +kernel
  have hmalformed : (stored.2.rows.any fun r =>
      r.owner = 1 && !Native.wellFormedMembers r.fields) = true := by decide +kernel
  refine ⟨?_, ?_⟩
  · show during .countRows ((meeting [⟨Path.ofColumn "b", .isPresent⟩]
      [⟨1, 1, 1, 0, [("b", .bool true)], empty.clock + 1⟩]).map List.length) = _
    rw [Path.ofColumn_of_plain (by decide)]
    rfl
  · obtain ⟨r, hr, hrow⟩ := List.any_eq_true.1 hmalformed
    rw [Bool.and_eq_true, decide_eq_true_iff, Bool.not_eq_true'] at hrow
    rcases hs : stored with ⟨x | d, s'⟩
    · rw [hs] at hok
      cases hok
    · rw [hs] at hr
      refine ⟨d, s', hs, rowCount_error_of_malformed hr hrow.2 ?_ (.inr (List.cons_ne_nil _ _))⟩
      rw [Selection.covers, hrow.1]
      rfl

end Store

end Gridbook
