/-
Gridbook/Proofs/Chart/Previewing.lean

A preview is the beginning of its chart.  Both scans read the same rows in the same order, and
the preview fewer of them; what is taken from fewer rows is a prefix of what is taken from
more, and so are its groups and their members (`begins_of_isPrefix`).

Putting the points of a line in order can break this.  It changes nothing where the order of
the store is that of the chart, so that the points stand in order before they are put in it.
Where it is another, a point behind the fiftieth may come before one that the preview has
(`preview_lacks_least`).

Main statement: `preview_begins`.
-/
import Gridbook.Proofs.Chart.Limiting
import Gridbook.Proofs.Chart.Partitioning
import Gridbook.Proofs.Chart.Sorting

namespace Gridbook

/-! ### Prefixes -/

section Prefixes

variable {κ : Type} [DecidableEq κ]

theorem distinct_append (ks ls : List κ) :
    distinct (ks ++ ls) = distinct ks ++ (distinct ls).filter (· ∉ ks) := by
  induction ks with
  | nil => simp [distinct]
  | cons k ks ih =>
    rw [List.cons_append, distinct, distinct, ih, List.filter_append, List.filter_filter,
      List.cons_append]
    refine congrArg _ (congrArg _ (List.filter_congr fun l _ => ?_))
    simp [not_or]

theorem isPrefix_distinct {ks ls : List κ} (h : ks <+: ls) : distinct ks <+: distinct ls := by
  obtain ⟨rest, rfl⟩ := h
  rw [distinct_append]
  exact List.prefix_append _ _

end Prefixes

namespace Series

variable {r : ChartRequest} {ps qs : List Point} {pre full : Series}

/-- Is `pre` a beginning of `full`?  It has the first of its datasets, and of each of them the
first points. -/
structure Begins (pre full : Series) : Prop where
  labels : pre.datasets.map (·.label) <+: full.datasets.map (·.label)
  data : ∀ d ∈ pre.datasets, ∀ e ∈ full.datasets, e.label = d.label → d.data <+: e.data

/-- The first of some points are laid out as the beginning of the layout of all. -/
theorem begins_of_isPrefix (h : ps <+: qs) (hpre : ofPoints r ps = .ok pre)
    (hfull : ofPoints r qs = .ok full) : pre.Begins full := by
  refine ⟨?_, fun d hd e he hlabel => ?_⟩
  · rw [labels_of_ofPoints hpre, labels_of_ofPoints hfull]
    split
    · exact isPrefix_distinct (h.map groupLabel)
    · exact List.prefix_rfl
  · rw [data_of_ofPoints hpre d hd, data_of_ofPoints hfull e he, hlabel]
    exact (h.filter _).map mark

/-- Series that differ at one place of their only datasets are not a beginning of one another. -/
theorem not_begins {label a b : String} {n : Nat}
    (hpre : pre.datasets.map (fun d => (d.label, d.data[n]?.map (·.1.label))) = [(label, some a)])
    (hfull : full.datasets.map (fun d => (d.label, d.data[n]?.map (·.1.label))) =
      [(label, some b)]) (hne : a ≠ b) : ¬ pre.Begins full := by
  intro h
  obtain ⟨d, hd, hda⟩ := List.map_eq_singleton_iff.1 hpre
  obtain ⟨e, he, heb⟩ := List.map_eq_singleton_iff.1 hfull
  obtain ⟨hdlabel, hda⟩ := Prod.mk.inj hda
  obtain ⟨helabel, heb⟩ := Prod.mk.inj heb
  obtain ⟨rest, hrest⟩ := h.data d (by simp [hd]) e (by simp [he]) (helabel.trans hdlabel.symm)
  obtain ⟨v, hv, rfl⟩ := Option.map_eq_some_iff.1 hda
  obtain ⟨hn, -⟩ := List.getElem?_eq_some_iff.1 hv
  rw [← hrest, List.getElem?_append_left hn, hv] at heb
  exact hne (Option.some.inj heb)

/-- A layout shows as many points as it is made of. -/
theorem Partitions.length_shown {series : Series} (h : Partitions r ps series) :
    series.shown.length = ps.length := by
  have hlength := h.all.length_eq
  rw [List.length_map] at hlength
  rw [← hlength, shown, List.length_flatMap, List.length_flatMap]
  simp

end Series

namespace Point

variable {r : ChartRequest} {ps : List Point}

/-- The points of the first rows are the first points, where every row has one. -/
theorem extract_take {rows : List Fields} (h : extract r rows = .ok ps)
    (hall : ∀ fields ∈ rows, ∀ o, ofFields? r fields = .ok o → o.isSome) (n : Nat) :
    extract r (rows.take n) = .ok (ps.take n) :=
  extract_of_forall₂ (List.forall₂_take n (forall₂_of_extract h hall))

end Point

namespace ChartRequest

variable {r : ChartRequest} {source : ChartSource} {ps qs : List Point} {series : Series}

/-- A sound request is drawn from the points of its scan. -/
theorem generate_of_arranged {verdict : ChartVerdict} (hverdict : r.validate source = .ok verdict)
    (hvalid : verdict.isValid) (hscan : r.scan source = .ok ps) (harranged : r.arranged ps = .ok qs)
    (hdrawn : Series.ofPoints r qs = .ok series) : r.generate source = .ok series := by
  refine Outcome.bind_eq_ok.2 ⟨verdict, hverdict, (if_pos hvalid).trans ?_⟩
  exact Outcome.bind_eq_ok.2 ⟨ps, hscan, Outcome.bind_eq_ok.2 ⟨qs, harranged, hdrawn⟩⟩

/-- Where points are drawn that are not combined, any of them can be drawn without the
others. -/
theorem exists_arranged (hx : ∀ p ∈ ps, p.x.isOrdinary)
    (hnone : Form.given r.aggregation = none) (h : r.arranged ps = .ok qs) {few : List Point}
    (hfew : ∀ p ∈ few, p ∈ ps) : ∃ out, r.arranged few = .ok out := by
  cases hkind : r.isLine with
  | true =>
    have hkeys := ((Point.sortByX_eq_ok hx).1
      (((arranged_eq_ok_of_none hnone).1 h).1 hkind)).1
    have hsorted := (Point.sortByX_eq_ok fun p hp => hx p (hfew p hp)).2
      ⟨fun p hp => hkeys p (hfew p hp), rfl⟩
    exact ⟨_, (arranged_eq_ok_of_none hnone).2 ⟨fun _ => hsorted, by simp [hkind]⟩⟩
  | false =>
    exact ⟨few, (arranged_eq_ok_of_none hnone).2 ⟨by simp [hkind], fun _ => rfl⟩⟩

/-- Points that are not combined, and stand in order if they are those of a line, are drawn as
they stand. -/
theorem arranged_of_pairwise (hx : ∀ p ∈ ps, p.x.isOrdinary)
    (hnone : Form.given r.aggregation = none) (h : r.arranged ps = .ok qs)
    (hpairwise : r.isLine → ps.Pairwise fun p q => (Point.compareX p q).isLE) : qs = ps := by
  obtain ⟨hline, hbar⟩ := (arranged_eq_ok_of_none hnone).1 h
  cases hkind : r.isLine with
  | true =>
    rw [((Point.sortByX_eq_ok hx).1 (hline hkind)).2]
    exact sortBy_of_pairwise (hpairwise hkind)
  | false => exact hbar hkind

/-- A series of no more points than a preview shows is a preview as it is. -/
theorem preview_of_generate (h : r.previewRequest.generate source = .ok series)
    (hparts : Series.Partitions r ps series) (hlength : ps.length ≤ previewPoints) :
    r.preview source = .ok series := by
  have hlabels : (if (Form.given r.groupBy).isSome then series.labels
      else series.labels.take previewPoints) = series.labels := by
    cases hgroup : Form.given r.groupBy with
    | some column => rfl
    | none =>
      refine List.take_of_length_le ?_
      rwa [(hparts.single hgroup).2, List.length_map]
  have hdata : ∀ d ∈ series.datasets, { d with data := d.data.take previewPoints } = d := by
    intro d hd
    have hle := (List.sublist_flatten_of_mem (List.mem_map_of_mem (f := (·.data)) hd)).length_le
    rw [← List.flatMap_def, hparts.all.length_eq, List.length_map] at hle
    rw [List.take_of_length_le (Nat.le_trans hle hlength)]
  refine Outcome.bind_eq_ok.2 ⟨series, h, ?_⟩
  show Except.ok (Series.mk _ _) = _
  rw [hlabels, List.map_congr_left hdata, List.map_id']

/-- A preview is judged as its chart is, whose limit is positive. -/
theorem validate_previewRequest (hlimit : ∀ m ∈ r.limit, 50 ≤ m) (source : ChartSource) :
    r.previewRequest.validate source = r.validate source := by
  have hsmall : r.limit.any (· ≤ 0) = false := by
    cases hm : r.limit with
    | none => rfl
    | some m =>
      have hle := hlimit m hm
      exact decide_eq_false (by omega)
  exact validate_with (a := r.aggregation) rfl hsmall.symm

/-- If a chart is drawn whose points are not combined, and its preview scans a few of them,
then the preview is drawn from these. -/
theorem exists_preview {few out : List Point} {full : Series} {verdict : ChartVerdict}
    (hverdict : r.previewRequest.validate source = .ok verdict) (hvalid : verdict.isValid)
    (hscan : r.previewRequest.scan source = .ok few) (hfew : ∀ p ∈ few, p ∈ ps)
    (hlength : few.length ≤ previewPoints) (hx : ∀ p ∈ ps, p.x.isOrdinary)
    (hnone : Form.given r.aggregation = none) (harranged : r.arranged ps = .ok out)
    (hdrawn : Series.ofPoints r out = .ok full) :
    ∃ qs pre, r.arranged few = .ok qs ∧ qs.Perm few ∧ Series.ofPoints r qs = .ok pre ∧
      r.preview source = .ok pre := by
  obtain ⟨qs, hqs⟩ := exists_arranged hx hnone harranged hfew
  have hperm := perm_arranged_of_none (fun p hp => hx p (hfew p hp)) hnone hqs
  have hout := perm_arranged_of_none hx hnone harranged
  obtain ⟨pre, hpre⟩ := Series.exists_ofPoints fun p hp => Series.drawable_of_ofPoints hdrawn p
    (hout.mem_iff.2 (hfew p (hperm.mem_iff.1 hp)))
  refine ⟨qs, pre, hqs, hperm, hpre, ?_⟩
  refine preview_of_generate (generate_of_arranged hverdict hvalid hscan hqs hpre)
    (Series.partitions_of_ofPoints hpre) ?_
  rwa [hperm.length_eq]

end ChartRequest

namespace Point

/-- Points whose x are sorted alike are compared as the store compares their x. -/
theorem compareX_eq_sortCompare [Reader] {p q : Point} (h : p.x.sortedAlike q.x)
    (hp : p.x.isOrdinary) (hq : q.x.isOrdinary) (hpkey : ∃ k, Key.ofCell p.x = .ok k)
    (hqkey : ∃ k, Key.ofCell q.x = .ok k) : compareX p q = p.x.sortCompare q.x := by
  rw [← Cell.compare_of_sortedAlike h hp hq (ofCell_eq_key hpkey) (ofCell_eq_key hqkey)]
  exact (Key.compare_eq_lineCompare (isPlain_key hp hpkey) (isPlain_key hq hqkey)).symm

end Point

namespace Store

variable {s : Store} {owner : Ident} {r : ChartRequest} {x y : String} {valid : Selection}
  {rows : List Row}

/-- The points of a line stand in order before they are put in it, where the store sorts their
x like the chart and the name of their column does not stand for the places. -/
theorem Plots.pairwise_compareX [Reader] (h : s.Plots owner r x y valid rows) (hs : s.Reachable)
    (hfinds : s.Finds valid ⟨some x, false⟩ rows) (hplain : Path.isPlain x) {n : Nat}
    {ps qs : List Point} (hps : Point.extract r ((rows.take n).map (·.fields)) = .ok ps)
    (hqs : Point.sortByX ps = .ok qs) (halike : ∀ p ∈ ps, ∀ q ∈ ps, p.x.sortedAlike q.x) :
    ps.Pairwise fun p q => (Point.compareX p q).isLE := by
  have hx := isOrdinary_of_extract hs
    (fun row hrow => ((h.mem row).1 (List.mem_of_mem_take hrow)).1) hps
  have hkeys := ((Point.sortByX_eq_ok hx).1 hqs).1
  have hrows : ((rows.take n).map (·.fields.cell x)).Pairwise fun a b => (a.sortCompare b).isLE :=
    List.pairwise_map.2 ((h.pairwise_isLE hfinds hs.integral.rowIds hplain).sublist
      (List.take_sublist n rows))
  rw [← h.map_x (fun _ => List.mem_of_mem_take) hps] at hrows
  refine (List.pairwise_map.1 hrows).imp_of_mem fun {p q} hp hq hle => ?_
  rwa [Point.compareX_eq_sortCompare (halike p hp q hq) (hx p hp) (hx q hq) (hkeys p hp)
    (hkeys q hq)]

/-- The preview scans the first fifty of the points that its chart scans. -/
theorem Plots.scan_previewRequest [Reader] (h : s.Plots owner r x y valid rows) {order : Order}
    (horder : Sorting.order r.scanOrder = .ok order) (hfinds : s.Finds valid order rows)
    (hfew : 50 ≤ r.scanLimit) {ps : List Point}
    (hps : Point.extract r ((rows.take r.scanLimit.toNat).map (·.fields)) = .ok ps) :
    r.previewRequest.scan (s.chartSource owner) = .ok (ps.take 50) := by
  have hread : (s.chartSource owner).rows r.plotted r.scanOrder 50 =
      .ok ((rows.take 50).map (·.fields)) :=
    rows_of_finds h.checked horder hfinds (by decide) (by decide)
  have hfirst := Point.extract_take hps (h.isSome_points fun _ => List.mem_of_mem_take) 50
  rw [← List.map_take, List.take_take, Nat.min_eq_left (by omega)] at hfirst
  exact Outcome.bind_eq_ok.2 ⟨_, hread, hfirst⟩

/-- The preview of a chart that does not combine points shows the first fifty points of its
scan, or all where there are fewer, divided as the chart divides its points.  It is the
beginning of the chart: of bars always, and of a line where the store sorts the x that are
shown as the chart sorts them. -/
theorem preview_begins [Reader] (hs : s.Reachable) (hplain : ∀ column ∈ r.axes, Path.isPlain column)
    (hnone : Form.given r.aggregation = none) (hlimit : ∀ m ∈ r.limit, 50 ≤ m) {full : Series}
    (h : r.generate (s.chartSource owner) = .ok full) :
    ∃ (ps qs : List Point) (pre : Series), r.scan (s.chartSource owner) = .ok ps ∧
      r.preview (s.chartSource owner) = .ok pre ∧ qs.Perm (ps.take 50) ∧
      Series.Partitions r qs pre ∧ pre.shown.length = min 50 ps.length ∧
      ((r.isLine → (∀ column ∈ r.xColumn, column ∉ placeKeys) ∧
          ∀ v ∈ full.shown, ∀ w ∈ full.shown, v.2.1.sortedAlike w.2.1) →
        qs = ps.take 50 ∧ pre.Begins full) := by
  obtain ⟨verdict, x, y, valid, order, rows, ps, out, ⟨hverdict, hvalid⟩, hplots, -, horder,
    hfinds, hscan, hps, hx, harranged, hdrawn⟩ := exists_plotted_of_generate hs hplain h
  have hfew : (50 : Int) ≤ r.scanLimit := by
    rw [ChartRequest.scanLimit_eq (ChartRequest.validate_valid hverdict hvalid).1]
    cases hm : r.limit with
    | none => decide
    | some m => exact hlimit m hm
  have hfirst := hplots.scan_previewRequest horder hfinds hfew hps
  rw [← ChartRequest.validate_previewRequest hlimit] at hverdict
  have hmem : ∀ p ∈ ps.take 50, p ∈ ps := fun p => List.mem_of_mem_take
  obtain ⟨qs, pre, hqs, hperm, hpre, hpreview⟩ := ChartRequest.exists_preview hverdict hvalid
    hfirst hmem (List.length_take_le 50 ps) hx hnone harranged hdrawn
  have hparts := Series.partitions_of_ofPoints hpre
  refine ⟨ps, qs, pre, hscan, hpreview, hperm, hparts, ?_, fun halike => ?_⟩
  · rw [hparts.length_shown, hperm.length_eq, List.length_take]
  -- the points of a line already stand in order
  have hpairwise : r.isLine → ps.Pairwise fun p q => (Point.compareX p q).isLE := by
    intro hline
    obtain ⟨hkey, halike⟩ := halike hline
    cases ChartRequest.order_of_isLine hline hplots.xColumn (hkey x hplots.xColumn) horder
    have hshown : ∀ p ∈ ps, ∃ v ∈ full.shown, v.2.1 = p.x := fun p hp =>
      ⟨_, (Series.shown_ofPoints hdrawn).2.mem_iff.2 (List.mem_map_of_mem
        ((ChartRequest.perm_arranged_of_none hx hnone harranged).mem_iff.2 hp)), rfl⟩
    refine hplots.pairwise_compareX hs hfinds (hplain x (hplots.axes ▸ List.mem_cons_self)) hps
      (((ChartRequest.arranged_eq_ok_of_none hnone).1 harranged).1 hline) fun p hp q hq => ?_
    obtain ⟨v, hv, hvx⟩ := hshown p hp
    obtain ⟨w, hw, hwx⟩ := hshown q hq
    rw [← hvx, ← hwx]
    exact halike v hv w hw
  have hfull := ChartRequest.arranged_of_pairwise hx hnone harranged hpairwise
  have hbeginning := ChartRequest.arranged_of_pairwise (fun p hp => hx p (hmem p hp)) hnone hqs
    fun hline => (hpairwise hline).sublist (List.take_sublist 50 ps)
  refine ⟨hbeginning, Series.begins_of_isPrefix ?_ hpre hdrawn⟩
  rw [hbeginning, hfull]
  exact List.take_prefix 50 ps

/-- A line of fifty-one points, which stand in order, and the first fifty of them. -/
theorem preview_begins_fifty :
    let u : Upload := ⟨[.text "n"], (List.range 51).map fun i : Nat => [.number (.whole i)], false⟩
    let s := empty.run [.ingest (some 1) (some "t") none u]
    let r : ChartRequest := ⟨none, some "n", some "n", some "line", none, none, some 60, []⟩
    s.Reachable ∧ (∀ column ∈ r.axes, Path.isPlain column) ∧ (∀ m ∈ r.limit, 50 ≤ m) ∧
      ∃ full pre, r.generate (s.chartSource (some 1)) = .ok full ∧
        r.preview (s.chartSource (some 1)) = .ok pre ∧ full.shown.length = 51 ∧
        pre.shown.length = 50 ∧ pre.Begins full := by
  intro u s r
  have hs : s.Reachable := ⟨_, rfl⟩
  have hplain : ∀ column ∈ r.axes, Path.isPlain column := by decide +kernel
  have hlimit : ∀ m ∈ r.limit, 50 ≤ m := by simp [r]
  obtain ⟨full, hfull, hshown⟩ : ∃ full, r.generate (s.chartSource (some 1)) = .ok full ∧
      (full.shown.length, full.shown.all fun v => full.shown.all fun w =>
        v.2.1.sortedAlike w.2.1) = (51, true) := Outcome.of_toOption_map (by decide +kernel)
  obtain ⟨hlength, halike⟩ := Prod.mk.inj hshown
  have halike : ∀ v ∈ full.shown, ∀ w ∈ full.shown, v.2.1.sortedAlike w.2.1 := fun v hv =>
    List.all_eq_true.1 (List.all_eq_true.1 halike v hv)
  obtain ⟨ps, qs, pre, hscan, hpre, hperm, hparts, hfifty, hbegins⟩ :=
    preview_begins hs hplain rfl hlimit hfull
  obtain ⟨hqs, hbegins⟩ := hbegins fun _ => ⟨by simp [r, placeKeys], halike⟩
  refine ⟨hs, hplain, hlimit, full, pre, hfull, hpre, hlength, ?_, hbegins⟩
  have hpoints : (r.scan (s.chartSource (some 1))).toOption.map (·.length) = some 51 := by
    decide +kernel
  rw [hscan] at hpoints
  have hmany : ps.length = 51 := Option.some.inj hpoints
  rw [hfifty, hmany]
  rfl

/-- Where the column of the x is called like the places, the scan does not order its rows, and
the preview does not come to the least of them.  Texts are not told apart by the store behind
a NUL, so that the last of the preview comes after one that it lacks. -/
theorem preview_lacks_least :
    let chart (column : String) : ChartRequest :=
      ⟨none, some column, some column, some "line", none, none, none, []⟩
    let stored (column : String) (cells : List Cell) : Store :=
      empty.run [.ingest (some 1) (some "t") none ⟨[.text column], cells.map ([·]), false⟩]
    let falling := stored "index" ((List.range 51).map fun i : Nat => .number (.whole (51 - i)))
    let spelled := stored "x" (List.replicate 49 (.text "A") ++ [.text "a\x00c", .text "a\x00b"])
    (∃ pre full : Series, (chart "index").preview (falling.chartSource (some 1)) = .ok pre ∧
        (chart "index").generate (falling.chartSource (some 1)) = .ok full ∧ ¬ pre.Begins full) ∧
      ∃ pre full : Series, (chart "x").preview (spelled.chartSource (some 1)) = .ok pre ∧
        (chart "x").generate (spelled.chartSource (some 1)) = .ok full ∧ ¬ pre.Begins full := by
  intro chart stored falling spelled
  let shownAt (n : Nat) (series : Series) : List (String × Option String) :=
    series.datasets.map fun d => (d.label, d.data[n]?.map (·.1.label))
  constructor
  · obtain ⟨pre, hpre, ha⟩ : ∃ pre, (chart "index").preview (falling.chartSource (some 1)) =
        .ok pre ∧ shownAt 0 pre = [("index vs index", some "2")] :=
      Outcome.of_toOption_map (by decide +kernel)
    obtain ⟨full, hfull, hb⟩ : ∃ full, (chart "index").generate (falling.chartSource (some 1)) =
        .ok full ∧ shownAt 0 full = [("index vs index", some "1")] :=
      Outcome.of_toOption_map (by decide +kernel)
    exact ⟨pre, full, hpre, hfull, Series.not_begins ha hb (by decide)⟩
  · obtain ⟨pre, hpre, ha⟩ : ∃ pre, (chart "x").preview (spelled.chartSource (some 1)) =
        .ok pre ∧ shownAt 49 pre = [("x vs x", some "a\x00c")] :=
      Outcome.of_toOption_map (by decide +kernel)
    obtain ⟨full, hfull, hb⟩ : ∃ full, (chart "x").generate (spelled.chartSource (some 1)) =
        .ok full ∧ shownAt 49 full = [("x vs x", some "a\x00b")] :=
      Outcome.of_toOption_map (by decide +kernel)
    exact ⟨pre, full, hpre, hfull, Series.not_begins ha hb (by decide)⟩

end Store

end Gridbook
