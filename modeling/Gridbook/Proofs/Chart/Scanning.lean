/-
Gridbook/Proofs/Chart/Scanning.lean

What the scan of a chart reads.  It reads the first of the rows that the store finds, and
the store finds the rows that have a value on both axes: what it tests in a column of a
plain name is what the point of a row is made of.  So none of the scanned rows is without
a point, and there are as many points as the scan is long.

Main statement: the points are as many as the plotted rows that are counted, up to the
limit, and a chart that passes the check shows at least one (`points_of_count`).
-/
import Gridbook.Proofs.Chart.Coverage
import Gridbook.Proofs.Query.Ordering

namespace Gridbook

/-! ### Values on the axes -/

namespace Condition

variable {fields : Fields} {column : String}

theorem ofCell_isNull [Reader] (c : Cell) : (Native.ofCell c matches .null) = c.isNull := by
  cases c with
  | number n => cases n <;> rfl
  | _ => rfl

/-- The store tests a plain column for what the row has in it. -/
theorem holds_present [Reader] (hplain : Path.isPlain column)
    (hfields : Native.wellFormedMembers fields) :
    (present column).holds fields = .ok (fields.has column) := by
  rw [(tests_present hplain).holds_eq hfields]
  exact congrArg (fun b : Bool => Except.ok (!b)) (ofCell_isNull (fields.cell column))

end Condition

/-! ### Counting -/

namespace ChartRequest

variable {r : ChartRequest} {source : ChartSource} {verdict : ChartVerdict} {ps qs : List Point}

/-- A check that is passed has counted rows to plot. -/
theorem exists_count (h : r.validate source = .ok verdict) (hvalid : verdict.isValid) :
    ∃ n, source.count r.plotted = .ok n ∧ n ≠ 0 := by
  have hnone : verdict.problems = [] := List.isEmpty_iff.1 hvalid
  obtain ⟨filters, columns, -, -, ⟨hsome, hgiven⟩ | ⟨-, n, hn, hcounted⟩⟩ := validate_cases h
  · exact absurd (hgiven.symm.trans hnone) hsome
  · exact ⟨n, hn, of_decide_eq_false (problemIf_eq_nil_iff.1 (hcounted.symm.trans hnone))⟩

/-- With a limit that passes the check, the scan has this limit. -/
theorem scanLimit_eq (hform : r.formProblems = []) : r.scanLimit = r.limit.getD defaultScan := by
  have hpos := (of_formProblems_eq_nil hform).2
  unfold scanLimit
  cases hlimit : r.limit with
  | none => rfl
  | some n =>
    have hn : n ≠ 0 := Int.ne_of_gt (hpos n hlimit)
    rw [Option.filter_some, if_pos (decide_eq_true hn)]

/-- Points that are not combined are put in order for a line, and drawn as they are else. -/
theorem arranged_eq_ok_of_none (hnone : Form.given r.aggregation = none) :
    r.arranged ps = .ok qs ↔
      (r.isLine → Point.sortByX ps = .ok qs) ∧ (r.isLine = false → qs = ps) := by
  unfold arranged
  rw [hnone]
  show (if r.isLine then _ else _) = _ ↔ _
  cases r.isLine with
  | true =>
    rw [if_pos rfl, Store.ofConversion_eq_ok]
    simp
  | false =>
    rw [if_neg Bool.false_ne_true]
    show Except.ok ps = .ok qs ↔ _
    simp [eq_comm]

/-- Points that are not combined are drawn as they are, if only in another order. -/
theorem perm_arranged_of_none (hx : ∀ p ∈ ps, p.x.isOrdinary)
    (hnone : Form.given r.aggregation = none) (h : r.arranged ps = .ok qs) : qs.Perm ps := by
  obtain ⟨hline, hbar⟩ := (arranged_eq_ok_of_none hnone).1 h
  cases hkind : r.isLine with
  | true => exact Point.perm_sortByX hx (hline hkind)
  | false => exact List.Perm.of_eq (hbar hkind)

/-- Where there are points, some are drawn, combined or not. -/
theorem arranged_ne_nil (hps : ∀ p ∈ ps, p.Extracted) (hx : ∀ p ∈ ps, p.x.isOrdinary)
    (hsome : ps ≠ []) (h : r.arranged ps = .ok qs) : qs ≠ [] := by
  rintro rfl
  cases hname : Form.given r.aggregation with
  | none => exact hsome (perm_arranged_of_none hx hname h).nil_eq.symm
  | some name =>
    obtain ⟨a, -, hperm⟩ := perm_arranged hps hx hname h
    -- the key of the first point is the key of a combined one
    have hkeys : (a.combinedBy (Aggregation.pointKey (Form.given r.groupBy).isSome) ps).map
        (Aggregation.pointKey (Form.given r.groupBy).isSome) = distinct (ps.map _) :=
      Aggregation.map_key_combinedBy fun _ _ => rfl
    rw [hperm.nil_eq.symm, List.map_nil] at hkeys
    obtain ⟨p, ps, rfl⟩ := List.exists_cons_of_ne_nil hsome
    cases hkeys

end ChartRequest

namespace Series

variable {r : ChartRequest} {ps : List Point} {series : Series}

/-- A layout of points shows something. -/
theorem shown_ne_nil (hsome : ps ≠ []) (h : ofPoints r ps = .ok series) : series.shown ≠ [] := by
  intro hnone
  have hperm := (shown_ofPoints h).2
  rw [hnone] at hperm
  exact hsome (List.map_eq_nil_iff.1 hperm.nil_eq.symm)

end Series

/-! ### Scans of stored rows -/

namespace Store

variable {s : Store} {owner : Ident} {r : ChartRequest} {p : Plotted} {sort : Option Sorting}

/-- A limit by which rows are read fits a word. -/
theorem limit_of_rows [Reader] {limit : Int} {out : List Fields}
    (h : (s.chartSource owner).rows p sort limit = .ok out) : 1 ≤ limit ∧ limit < 2 ^ 63 := by
  obtain ⟨q, hq, -⟩ := Outcome.map_eq_ok.1 h
  obtain ⟨_, l, _, valid, _, _, -, -, hlimit, hl, -, -, hfetch, -⟩ := page_eq_ok.1 hq
  obtain ⟨_, _, l', _, -, -, hlimit', hwindow, -, -⟩ := fetch_eq_ok.1 hfetch
  cases hlimit
  cases hlimit'
  have hfits := (statement_eq_ok.1 ((windowOf_eq_ok hl).1 hwindow).1).2 limit List.mem_cons_self
  exact ⟨hl, (fitsWord_iff.1 hfits).2⟩

/-- Are these the rows that a request plots by two columns?  They are in scope, the filters
leave them, and they have a value in both columns. -/
structure Plots [Reader] (s : Store) (owner : Ident) (r : ChartRequest) (x y : String)
    (valid : Selection) (rows : List Row) : Prop where
  xColumn : r.xColumn = some x
  yColumn : r.yColumn = some y
  axes : r.axes = [x, y]
  checked : Store.checked ⟨owner, r.dataset, r.filters, r.axes⟩ = .ok valid
  ids : (rows.map (·.id)).Nodup
  mem : ∀ row, row ∈ rows ↔ row ∈ s.rows ∧ valid.covers row ∧
    (∀ f ∈ valid.filters, f.Holds row) ∧ row.fields.has x ∧ row.fields.has y

/-- The order of the scan is by the column of the x, which is plain. -/
theorem sound_scanOrder (hplain : ∀ column ∈ r.axes, Path.isPlain column) {x : String}
    (hx : r.xColumn = some x) (haxis : x ∈ r.axes) {order : Order}
    (horder : Sorting.order r.scanOrder = .ok order) : order.Sound := by
  refine Sorting.sound_order horder fun o ho column hcolumn => ?_
  unfold ChartRequest.scanOrder at ho
  split at ho
  · cases ho
    cases hx.symm.trans hcolumn
    exact hplain x haxis
  · cases ho

/-- What is counted are the rows that are plotted, where the names of the axes are plain,
and they are found in the order of the scan. -/
theorem exists_plots [Reader] (hs : s.Reachable) (hform : r.formProblems = [])
    (hplain : ∀ column ∈ r.axes, Path.isPlain column) {n : Int}
    (h : (s.chartSource owner).count r.plotted = .ok n) :
    ∃ (x y : String) (valid : Selection) (order : Order) (rows : List Row),
      s.Plots owner r x y valid rows ∧ n = rows.length ∧
      Sorting.order r.scanOrder = .ok order ∧ s.Finds valid order rows := by
  obtain ⟨x, y, hx, hy, haxes⟩ := ChartRequest.exists_axes hform
  obtain ⟨order, horder⟩ : ∃ order, Sorting.order r.scanOrder = .ok order :=
    ⟨_, r.order_scanOrder⟩
  obtain ⟨m, hm, rfl⟩ := Outcome.map_eq_ok.1 h
  obtain ⟨valid, hvalid, hcount⟩ := rowCount_eq_ok.1 hm
  obtain ⟨ops, conds, found, hops, hconds, hfound, rfl⟩ := count_eq_ok.1 hcount
  have hrequired : valid.required = [x, y] := (required_of_checked hvalid).trans haxes
  -- a row in scope has been tested, so that it can be looked into
  have hsome : conds ≠ [] := by
    obtain ⟨cs, -, rfl⟩ := conditions_eq_ok hconds
    rw [hrequired]
    exact List.append_ne_nil_of_right_ne_nil cs (List.cons_ne_nil _ _)
  have hlegible : s.Legible valid := ⟨hs.hasTable .rows, wellFormed_of_selected hfound hsome⟩
  have hsound := sound_scanOrder hplain hx (haxes ▸ List.mem_cons_self) horder
  obtain ⟨rows, hrows⟩ := exists_ordered hsound (selected_legible hlegible hfound)
  have hids := hs.integral.rowIds.sublist ((selected_sublist hfound).map (·.id))
  have hlength := (ordered_eq_ok hids hrows).1.length_eq
  have hfinds : s.Finds valid order rows := by
    refine ⟨hlegible.table, ?_, ops, conds, found, hops, hconds, hfound, hrows⟩
    rw [hlength]
    exact hcount
  obtain ⟨hmatches, hnodup, -⟩ := hfinds.spec hs.integral.rowIds
  refine ⟨x, y, valid, order, rows, ⟨hx, hy, haxes, hvalid, hnodup, fun row => ?_⟩,
    congrArg _ hlength.symm, horder, hfinds⟩
  rw [haxes, List.forall_mem_cons, List.forall_mem_singleton] at hplain
  have haxis : ∀ {column}, Path.isPlain column → row ∈ s.rows → valid.covers row →
      ((Condition.present column).holds row.fields = .ok true ↔ row.fields.has column) :=
    fun hcolumn hrow hcovers => by
      rw [Condition.holds_present hcolumn (hlegible.rows row hrow hcovers), Except.ok.injEq]
  -- what the store asks of the two columns is that the row has a value in them
  rw [hmatches]
  refine and_congr_right fun hrow => ?_
  constructor
  · rintro ⟨hcovers, hfilters, hboth⟩
    rw [hrequired, List.forall_mem_cons, List.forall_mem_singleton,
      haxis hplain.1 hrow hcovers, haxis hplain.2 hrow hcovers] at hboth
    exact ⟨hcovers, hfilters, hboth⟩
  · rintro ⟨hcovers, hfilters, hboth⟩
    refine ⟨hcovers, hfilters, ?_⟩
    rwa [hrequired, List.forall_mem_cons, List.forall_mem_singleton,
      haxis hplain.1 hrow hcovers, haxis hplain.2 hrow hcovers]

/-- The points of stored rows have ordinary x. -/
theorem isOrdinary_of_extract (hs : s.Reachable) {rows : List Row}
    (hrows : ∀ row ∈ rows, row ∈ s.rows) {ps : List Point}
    (h : Point.extract r (rows.map (·.fields)) = .ok ps) :
    ∀ p ∈ ps, p.x.isOrdinary := fun p hp => by
  obtain ⟨fields, hfields, hp⟩ := Point.mem_of_extract h hp
  obtain ⟨row, hrow, rfl⟩ := List.mem_map.1 hfields
  exact Point.isOrdinary_x (hs.isOrdinary row (hrows row hrow)) hp

/-- A chart with plain axes that passes its check has rows to plot.  They have been counted,
and what the scan reads are the first of them. -/
theorem exists_scanned [Reader] (hs : s.Reachable) (hplain : ∀ column ∈ r.axes, Path.isPlain column)
    {verdict : ChartVerdict} (hverdict : r.validate (s.chartSource owner) = .ok verdict)
    (hvalid : verdict.isValid) :
    ∃ (x y : String) (valid : Selection) (order : Order) (rows : List Row),
      s.Plots owner r x y valid rows ∧ rows ≠ [] ∧
      (s.chartSource owner).count r.plotted = .ok rows.length ∧
      Sorting.order r.scanOrder = .ok order ∧ s.Finds valid order rows ∧
      (r.scanLimit < 2 ^ 63 →
        ∃ fields, (s.chartSource owner).rows r.plotted r.scanOrder r.scanLimit = .ok fields) ∧
      ∀ fields, (s.chartSource owner).rows r.plotted r.scanOrder r.scanLimit = .ok fields →
        fields = (rows.take r.scanLimit.toNat).map (·.fields) := by
  have hform := (ChartRequest.validate_valid hverdict hvalid).1
  have hpos : 1 ≤ r.scanLimit :=
    ChartRequest.scanLimit_pos (ChartRequest.of_formProblems_eq_nil hform).2
  obtain ⟨n, hcount, hn⟩ := ChartRequest.exists_count hverdict hvalid
  obtain ⟨x, y, valid, order, rows, hplots, rfl, horder, hfinds⟩ :=
    exists_plots hs hform hplain hcount
  have hread : r.scanLimit < 2 ^ 63 →
      (s.chartSource owner).rows r.plotted r.scanOrder r.scanLimit =
        .ok ((rows.take r.scanLimit.toNat).map (·.fields)) :=
    rows_of_finds hplots.checked horder hfinds hpos
  refine ⟨x, y, valid, order, rows, hplots, ?_, hcount, horder, hfinds,
    fun hfits => ⟨_, hread hfits⟩, fun fields hfields => ?_⟩
  · rintro rfl
    exact hn rfl
  · exact Except.ok.inj (hfields.symm.trans (hread (limit_of_rows hfields).2))

/-- A chart with plain axes is drawn from the points of the first rows that it plots. -/
theorem exists_plotted_of_generate [Reader] (hs : s.Reachable)
    (hplain : ∀ column ∈ r.axes, Path.isPlain column) {series : Series}
    (h : r.generate (s.chartSource owner) = .ok series) :
    ∃ (verdict : ChartVerdict) (x y : String) (valid : Selection) (order : Order)
        (rows : List Row) (ps qs : List Point),
      (r.validate (s.chartSource owner) = .ok verdict ∧ verdict.isValid) ∧
      s.Plots owner r x y valid rows ∧
      (s.chartSource owner).count r.plotted = .ok rows.length ∧
      Sorting.order r.scanOrder = .ok order ∧ s.Finds valid order rows ∧
      r.scan (s.chartSource owner) = .ok ps ∧
      Point.extract r ((rows.take r.scanLimit.toNat).map (·.fields)) = .ok ps ∧
      (∀ p ∈ ps, p.x.isOrdinary) ∧ r.arranged ps = .ok qs ∧
      Series.ofPoints r qs = .ok series := by
  obtain ⟨verdict, ps, qs, hverdict, hvalid, hscan, harranged, hdrawn⟩ :=
    ChartRequest.generate_eq_ok h
  obtain ⟨x, y, valid, order, rows, hplots, -, hcount, horder, hfinds, -, hscanned⟩ :=
    exists_scanned hs hplain hverdict hvalid
  obtain ⟨fields, hfields, hps⟩ := Outcome.bind_eq_ok.1 hscan
  cases hscanned fields hfields
  have hx := isOrdinary_of_extract hs
    (fun row hrow => ((hplots.mem row).1 (List.mem_of_mem_take hrow)).1) hps
  exact ⟨verdict, x, y, valid, order, rows, ps, qs, ⟨hverdict, hvalid⟩, hplots, hcount, horder,
    hfinds, hscan, hps, hx, harranged, hdrawn⟩

/-- A chart with plain axes that passes its check has rows to plot, all of which have been
counted.  A limit that fits a word lets the scan read the first of them, and each of these
has a point: there are as many points as the limit says, or as many as rows, but never
none, and a chart that is drawn shows something. -/
theorem points_of_count [Reader] (hs : s.Reachable)
    (hplain : ∀ column ∈ r.axes, Path.isPlain column)
    {verdict : ChartVerdict} (hverdict : r.validate (s.chartSource owner) = .ok verdict)
    (hvalid : verdict.isValid) :
    ∃ (x y : String) (valid : Selection) (rows : List Row),
      s.Plots owner r x y valid rows ∧
      (s.chartSource owner).count r.plotted = .ok rows.length ∧
      (r.limit.getD ChartRequest.defaultScan < 2 ^ 63 →
        ∃ fields, (s.chartSource owner).rows r.plotted r.scanOrder r.scanLimit = .ok fields) ∧
      (∀ fields ps, (s.chartSource owner).rows r.plotted r.scanOrder r.scanLimit = .ok fields →
        Point.extract r fields = .ok ps → ps.length = fields.length ∧
          (ps.length : Int) = min (r.limit.getD ChartRequest.defaultScan) rows.length ∧ ps ≠ []) ∧
      ∀ series, r.generate (s.chartSource owner) = .ok series → series.shown ≠ [] := by
  have hform := (ChartRequest.validate_valid hverdict hvalid).1
  have hpos : 1 ≤ r.scanLimit :=
    ChartRequest.scanLimit_pos (ChartRequest.of_formProblems_eq_nil hform).2
  obtain ⟨x, y, valid, order, rows, hplots, hsome, hcount, horder, hfinds, hread, hscanned⟩ :=
    exists_scanned hs hplain hverdict hvalid
  have hmatches : ∀ row ∈ rows.take r.scanLimit.toNat, row ∈ s.rows ∧ valid.Matches row :=
    fun row hrow => ((hfinds.spec hs.integral.rowIds).1 row).1 (List.mem_of_mem_take hrow)
  have hpoints : ∀ fields ps,
      (s.chartSource owner).rows r.plotted r.scanOrder r.scanLimit = .ok fields →
      Point.extract r fields = .ok ps → ps.length = fields.length ∧
        (ps.length : Int) = min (r.limit.getD ChartRequest.defaultScan) rows.length ∧ ps ≠ [] := by
    intro fields ps hfields hps
    cases hscanned fields hfields
    have hlength := length_of_matching hform hplots.checked
      (fun row hrow => (hmatches row hrow).2) hplain hps
    have hcounted := List.length_pos_iff.2 hsome
    rw [List.length_take] at hlength
    rw [← ChartRequest.scanLimit_eq hform, ← List.length_pos_iff, List.length_map,
      List.length_take]
    refine ⟨hlength, ?_, ?_⟩
    · omega
    · omega
  refine ⟨x, y, valid, rows, hplots, hcount, fun hfits => hread ?_, hpoints,
    fun series hseries => ?_⟩
  · rw [ChartRequest.scanLimit_eq hform]
    exact hfits
  · obtain ⟨_, ps, qs, -, -, hscan, harranged, hdrawn⟩ := ChartRequest.generate_eq_ok hseries
    obtain ⟨fields, hfields, hps⟩ := Outcome.bind_eq_ok.1 hscan
    have hdrawable := (hpoints fields ps hfields hps).2.2
    cases hscanned fields hfields
    have hx := isOrdinary_of_extract hs (fun row hrow => (hmatches row hrow).1) hps
    exact Series.shown_ne_nil
      (ChartRequest.arranged_ne_nil (Point.extracted_of_extract hps) hx hdrawable harranged) hdrawn

/-- Of three rows one has no value on one axis; the others make a chart of two points. -/
theorem points_of_count_three :
    let u : Upload := ⟨[.text "day", .text "cost"],
      [[.bool false, .text ""], [.null, .bool true], [.text "x", .text "none"]], false⟩
    let s := empty.run [.ingest (some 1) (some "t") none u]
    let r : ChartRequest := ⟨none, some "day", some "cost", some "line", none, none, none, []⟩
    s.Reachable ∧ (∀ column ∈ r.axes, Path.isPlain column) ∧
      ∃ verdict, r.validate (s.chartSource (some 1)) = .ok verdict ∧ verdict.isValid ∧
        ∃ fields ps, (s.chartSource (some 1)).rows r.plotted r.scanOrder r.scanLimit = .ok fields ∧
          Point.extract r fields = .ok ps ∧ ps.length = 2 := by
  intro u s r
  have hs : s.Reachable := ⟨_, rfl⟩
  have hplain : ∀ column ∈ r.axes, Path.isPlain column := by decide +kernel
  obtain ⟨verdict, hverdict, hvalid⟩ :
      ∃ verdict, r.validate (s.chartSource (some 1)) = .ok verdict ∧ verdict.isValid = true :=
    Outcome.of_toOption_map (by decide +kernel)
  refine ⟨hs, hplain, verdict, hverdict, hvalid, ?_⟩
  obtain ⟨x, y, valid, rows, -, hcount, -, hpoints, -⟩ :=
    points_of_count hs hplain hverdict hvalid
  have hrows : (rows.length : Int) = 2 := by
    have htwo : ((s.chartSource (some 1)).count r.plotted).toOption = some 2 := by decide +kernel
    rw [hcount] at htwo
    exact Option.some.inj htwo
  obtain ⟨ps, hscan, -⟩ : ∃ ps, r.scan (s.chartSource (some 1)) = .ok ps ∧ () = () :=
    Outcome.of_toOption_map (by decide +kernel)
  obtain ⟨fields, hfields, hps⟩ := Outcome.bind_eq_ok.1 hscan
  refine ⟨fields, ps, hfields, hps, ?_⟩
  have hlength := (hpoints fields ps hfields hps).2.1
  rw [hrows] at hlength
  exact Int.ofNat.inj hlength

end Store

end Gridbook
