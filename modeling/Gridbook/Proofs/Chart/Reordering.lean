/-
Gridbook/Proofs/Chart/Reordering.lean

A line and bars of the same request show the same points.  They are scanned in different
orders, so that a limit could keep different rows of either; where it keeps all rows, the two
scans are permutations of one another, and so are the points and the members of each group.

Putting the points of the line in order permutes them once more.  The groups are formed after
that, but a group has its members as they stand, and a part of what is in order is in order.

Main statement: `line_reorders_bar`.
-/
import Gridbook.Proofs.Chart.Limiting
import Gridbook.Proofs.Chart.Partitioning
import Gridbook.Proofs.Chart.Sorting

namespace Gridbook

namespace Point

variable {r : ChartRequest} {ps qs : List Point} {rows rows' : List Fields}

/-- Points are taken from rows one by one. -/
theorem eq_filterMap_of_extract (h : extract r rows = .ok ps) :
    ps = rows.filterMap fun fields => (ofFields? r fields).toOption.join := by
  obtain ⟨found, hfound, h⟩ := Outcome.bind_eq_ok.1 h
  cases h
  have hpoints : found.map id = rows.map fun fields => (ofFields? r fields).toOption.join :=
    Outcome.map_of_mapM hfound fun fields o ho => by
      rw [ho]
      rfl
  rw [List.map_id] at hpoints
  show found.filterMap id = _
  rw [hpoints, List.filterMap_map]
  rfl

/-- The points of the same rows in another order are the same points. -/
theorem perm_of_extract (hrows : rows.Perm rows') (h : extract r rows = .ok ps)
    (h' : extract r rows' = .ok qs) : ps.Perm qs := by
  rw [eq_filterMap_of_extract h, eq_filterMap_of_extract h']
  exact hrows.filterMap _

end Point

namespace ChartRequest

/-- The request for a chart of another type. -/
def ofType (r : ChartRequest) (type : String) : ChartRequest :=
  { r with chartType := some type }

end ChartRequest

namespace Series

variable {r : ChartRequest} {ps qs : List Point} {a b : Series}

/-- The same points in another order are laid out in datasets with the same labels and, but
for their order, the same data. -/
theorem perm_of_ofPoints {t u : String} (hperm : ps.Perm qs)
    (ha : ofPoints (r.ofType t) ps = .ok a) (hb : ofPoints (r.ofType u) qs = .ok b) :
    (∀ l, l ∈ a.datasets.map (·.label) ↔ l ∈ b.datasets.map (·.label)) ∧
      ∀ d ∈ a.datasets, ∀ e ∈ b.datasets, d.label = e.label → d.data.Perm e.data := by
  refine ⟨fun l => ?_, fun d hd e he hlabel => ?_⟩
  · rw [labels_of_ofPoints ha, labels_of_ofPoints hb]
    show l ∈ (if (Form.given r.groupBy).isSome then _ else _) ↔
      l ∈ (if (Form.given r.groupBy).isSome then _ else _)
    split
    · rw [mem_distinct, mem_distinct]
      exact (hperm.map groupLabel).mem_iff
    · exact Iff.rfl
  · rw [data_of_ofPoints ha d hd, data_of_ofPoints hb e he, hlabel]
    exact (hperm.filter _).map mark

end Series

namespace Store

variable {s : Store} {owner : Ident} {r : ChartRequest} {series : Series} {n : Int}

/-- A chart whose limit keeps all rows is drawn from the points of all rows that are plotted,
in the order of its scan. -/
theorem exists_all_of_generate [Reader] (hs : s.Reachable)
    (hplain : ∀ column ∈ r.axes, Path.isPlain column)
    (hcount : (s.chartSource owner).count r.plotted = .ok n)
    (hn : n ≤ r.limit.getD ChartRequest.defaultScan)
    (h : r.generate (s.chartSource owner) = .ok series) :
    ∃ (x y : String) (valid : Selection) (order : Order) (rows : List Row) (ps qs : List Point),
      s.Plots owner r x y valid rows ∧ Sorting.order r.scanOrder = .ok order ∧
      (rows.Pairwise fun a b => order.compare a b = .lt) ∧
      Point.extract r (rows.map (·.fields)) = .ok ps ∧ (∀ p ∈ ps, p.x.isOrdinary) ∧
      r.arranged ps = .ok qs ∧ Series.ofPoints r qs = .ok series := by
  obtain ⟨verdict, x, y, valid, order, rows, ps, qs, ⟨hverdict, hvalid⟩, hplots, hcounted,
    horder, hfinds, -, hps, hx, harranged, hdrawn⟩ := exists_plotted_of_generate hs hplain h
  have hform := (ChartRequest.validate_valid hverdict hvalid).1
  have hall : rows.take r.scanLimit.toNat = rows := by
    cases hcount.symm.trans hcounted
    refine List.take_of_length_le ?_
    rw [ChartRequest.scanLimit_eq hform]
    omega
  rw [hall] at hps
  exact ⟨x, y, valid, order, rows, ps, qs, hplots, horder, (hfinds.spec hs.integral.rowIds).2.2,
    hps, hx, harranged, hdrawn⟩

/-- A line and bars that do not combine points and leave out no rows have datasets of the same
labels.  Bars stand as the rows do, by dataset and index.  A line has the same points, with x
that do not decrease: numbers by their value, and after them all else by its text. -/
theorem line_reorders_bar [Reader] (hs : s.Reachable)
    (hplain : ∀ column ∈ r.axes, Path.isPlain column) (hnone : Form.given r.aggregation = none)
    (hcount : (s.chartSource owner).count r.plotted = .ok n)
    (hn : n ≤ r.limit.getD ChartRequest.defaultScan) {line bar : Series}
    (hline : (r.ofType "line").generate (s.chartSource owner) = .ok line)
    (hbar : (r.ofType "bar").generate (s.chartSource owner) = .ok bar) :
    (∀ l, l ∈ line.datasets.map (·.label) ↔ l ∈ bar.datasets.map (·.label)) ∧
      (∀ d ∈ line.datasets, ∀ e ∈ bar.datasets, d.label = e.label → d.data.Perm e.data) ∧
      (∀ d ∈ line.datasets, d.data.Pairwise fun v w => ∃ k l, Point.Key.ofCell v.1 = .ok k ∧
        Point.Key.ofCell w.1 = .ok l ∧ k.isPlain ∧ l.isPlain ∧ (k.compare l).isLE) ∧
      ∃ (x y : String) (valid : Selection) (rows : List Row) (ps : List Point),
        s.Plots owner r x y valid rows ∧ (rows.Pairwise fun a b => placeCompare a b = .lt) ∧
        List.Forall₂ (fun row p => Point.ofFields? r row.fields = .ok (some p)) rows ps ∧
        ∀ e ∈ bar.datasets,
          e.data = (ps.filter fun p => Series.datasetLabel r p = e.label).map Series.mark := by
  obtain ⟨x, y, valid, order, rows, ps, qs, hplots, -, -, hps, hx, harranged, hdrawn⟩ :=
    exists_all_of_generate (r := r.ofType "line") hs hplain hcount hn hline
  obtain ⟨x', y', valid', order', rows', ps', qs', hplots', horder', hpairwise, hps', hx',
    harranged', hdrawn'⟩ := exists_all_of_generate (r := r.ofType "bar") hs hplain hcount hn hbar
  cases hplots.xColumn.symm.trans hplots'.xColumn
  cases hplots.yColumn.symm.trans hplots'.yColumn
  cases hplots.checked.symm.trans hplots'.checked
  -- bars are scanned as the rows stand, and drawn as they are scanned
  cases (show Sorting.order none = .ok ⟨none, false⟩ from rfl).symm.trans horder'
  cases ((ChartRequest.arranged_eq_ok_of_none (r := r.ofType "bar") hnone).1 harranged').2 rfl
  have hsorted :=
    ((ChartRequest.arranged_eq_ok_of_none (r := r.ofType "line") hnone).1 harranged).1 rfl
  -- both scans read the same rows
  have hrows : rows.Perm rows' :=
    (List.perm_ext_iff_of_nodup hplots.ids.of_map hplots'.ids.of_map).2 fun row =>
      (hplots.mem row).trans (hplots'.mem row).symm
  have hpoints : qs.Perm ps' :=
    (Point.perm_sortByX hx hsorted).trans (Point.perm_of_extract (hrows.map _) hps hps')
  obtain ⟨hlabels, hdata⟩ := Series.perm_of_ofPoints hpoints hdrawn hdrawn'
  refine ⟨hlabels, hdata, fun d hd => ?_, x, y, valid, rows', ps', ?_, hpairwise, ?_,
    Series.data_of_ofPoints (r := r.ofType "bar") hdrawn'⟩
  · rw [Series.data_of_ofPoints hdrawn d hd]
    exact List.pairwise_map.2 ((Point.pairwise_of_sortByX hx hsorted).filter _)
  · exact ⟨hplots'.xColumn, hplots'.yColumn, hplots'.axes, hplots'.checked, hplots'.ids,
      hplots'.mem⟩
  · exact List.forall₂_map_left_iff.1
      (Point.forall₂_of_extract hps' (hplots'.isSome_points fun _ => id))

/-- Two groups of a number, texts and a truth value, where the bars stand as they came. -/
theorem line_reorders_bar_four :
    let u : Upload := ⟨[.text "day", .text "kind"],
      [[.text "b", .text "u"], [.bool true, .text "v"], [.number (.whole 7), .text "u"],
        [.text "B", .text "v"]], false⟩
    let s := empty.run [.ingest (some 1) (some "t") none u]
    let r : ChartRequest :=
      ⟨none, some "day", some "day", none, none, some "kind", some 4, []⟩
    let shown (series : Series) := series.shown.map fun v => (v.1, v.2.1.label)
    s.Reachable ∧ (∀ column ∈ r.axes, Path.isPlain column) ∧
      ∃ line bar, (r.ofType "line").generate (s.chartSource (some 1)) = .ok line ∧
        (r.ofType "bar").generate (s.chartSource (some 1)) = .ok bar ∧
        shown line = [("u", "7"), ("u", "b"), ("v", "B"), ("v", "True")] ∧
        shown bar = [("u", "b"), ("u", "7"), ("v", "True"), ("v", "B")] ∧
        ∀ d ∈ line.datasets, ∀ e ∈ bar.datasets, d.label = e.label → d.data.Perm e.data := by
  intro u s r shown
  have hs : s.Reachable := ⟨_, rfl⟩
  have hplain : ∀ column ∈ r.axes, Path.isPlain column := by decide +kernel
  obtain ⟨n, hcount, hn⟩ : ∃ n, (s.chartSource (some 1)).count r.plotted = .ok n ∧ n = 4 :=
    Outcome.of_toOption_map (f := id) (by decide +kernel)
  obtain ⟨line, hline, hshown⟩ : ∃ line, (r.ofType "line").generate (s.chartSource (some 1)) =
      .ok line ∧ shown line = [("u", "7"), ("u", "b"), ("v", "B"), ("v", "True")] :=
    Outcome.of_toOption_map (by decide +kernel)
  obtain ⟨bar, hbar, hshown'⟩ : ∃ bar, (r.ofType "bar").generate (s.chartSource (some 1)) =
      .ok bar ∧ shown bar = [("u", "b"), ("u", "7"), ("v", "True"), ("v", "B")] :=
    Outcome.of_toOption_map (by decide +kernel)
  have hall : n ≤ r.limit.getD ChartRequest.defaultScan := hn ▸ Int.le_refl 4
  obtain ⟨-, hperm, -⟩ := line_reorders_bar hs hplain rfl hcount hall hline hbar
  exact ⟨hs, hplain, line, bar, hline, hbar, hshown, hshown', hperm⟩

end Store

end Gridbook
