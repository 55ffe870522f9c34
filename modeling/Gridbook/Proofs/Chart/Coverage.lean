/-
Gridbook/Proofs/Chart/Coverage.lean

What a combined chart of stored rows shows.  The rows are read like a page of them:
the first thousand in the order of the scan, and these are all that is combined.
What comes after the scan loses nothing: putting points in order permutes them, and
so does laying them out in groups (`shown_ofPoints`).

So each value of the chart is the reduction of all values that the scan has found
under its key (`Series.Charts`), and the numbers of values add up to the number of
scanned rows, which is the number of all rows only as far as the scan goes
(`counts_stop_with_scan`).

Main statement: `generate_covers`.
-/
import Gridbook.Proofs.Chart.Bounding
import Gridbook.Proofs.Chart.Grouping
import Gridbook.Proofs.Chart.Sorting
import Gridbook.Proofs.Real.Whole
import Gridbook.Proofs.Store.Answering

namespace Gridbook

open Aggregation

/-! ### What is shown -/

namespace Series

variable {r : ChartRequest} {ps : List Point}

/-- All that is shown, with the label of its dataset. -/
def shown (series : Series) : List (String × Cell × Float) :=
  series.datasets.flatMap fun d => d.data.map fun v => (d.label, v)

/-- The label of the dataset that shows a point. -/
def datasetLabel (r : ChartRequest) (p : Point) : String :=
  if (Form.given r.groupBy).isSome then groupLabel p
  else columnTitle r.yColumn ++ " vs " ++ columnTitle r.xColumn

/-- The value that is drawn of a point. -/
def drawnValue (p : Point) : Float :=
  (Form.real p.y).toOption.getD 0

theorem eq_of_drawn {p : Point} {v : Cell × Float} (h : drawn p = .ok v) :
    v = (p.x, drawnValue p) := by
  obtain ⟨hx, hy⟩ := drawn_eq_ok.1 h
  refine Prod.ext hx ?_
  rw [drawnValue, hy]
  rfl

theorem dataset_eq_ok {isLine : Bool} {label fill line : String} {d : Dataset}
    (h : dataset isLine label fill line ps = .ok d) :
    (∀ p ∈ ps, Form.real p.y = .ok (drawnValue p)) ∧ d.label = label ∧
      d.data = ps.map fun p => (p.x, drawnValue p) := by
  obtain ⟨data, hdata, h⟩ := Outcome.bind_eq_ok.1 h
  cases h
  refine ⟨fun p hp => ?_, rfl, ?_⟩
  · obtain ⟨v, -, hv⟩ := Outcome.ok_of_mem_mapM hdata hp
    have hy := (drawn_eq_ok.1 hv).2
    rwa [eq_of_drawn hv] at hy
  · have hvalues := Outcome.map_of_mapM (g := id) hdata fun p v hv => eq_of_drawn hv
    rwa [List.map_id] at hvalues

theorem map_mapIdx_snd {α β : Type} (f : α → β) (as : List α) :
    ((as.mapIdx fun i a => (i, a)).map fun g => f g.2) = as.map f :=
  List.ext_getElem (by simp) fun i _ _ => by simp

/-- The datasets of groups show the members under the labels of the groups. -/
theorem shown_datasetsOf {isLine : Bool} {gs : List (String × List Point)} {ds : List Dataset}
    (h : datasetsOf isLine gs = .ok ds) :
    (∀ g ∈ gs, ∀ p ∈ g.2, Form.real p.y = .ok (drawnValue p)) ∧
      (ds.flatMap fun d => d.data.map fun v => (d.label, v)) =
        gs.flatMap fun g => g.2.map fun p => (g.1, p.x, drawnValue p) := by
  constructor
  · intro g hg
    obtain ⟨i, hi, rfl⟩ := List.mem_iff_getElem.1 hg
    have hmem : (i, gs.get ⟨i, hi⟩) ∈ gs.mapIdx fun i g => (i, g) :=
      List.mem_mapIdx.2 ⟨i, hi, rfl⟩
    obtain ⟨d, -, hd⟩ := Outcome.ok_of_mem_mapM h hmem
    exact (dataset_eq_ok hd).1
  · let shownOf (g : String × List Point) : List (String × Cell × Float) :=
      g.2.map fun p => (g.1, p.x, drawnValue p)
    have hmembers : (ds.map fun d => d.data.map fun v => (d.label, v)) = gs.map shownOf := by
      rw [← map_mapIdx_snd shownOf]
      refine Outcome.map_of_mapM h fun g d hd => ?_
      obtain ⟨-, hlabel, hdata⟩ := dataset_eq_ok hd
      rw [hlabel, hdata, List.map_map]
      rfl
    rw [List.flatMap_def, hmembers, ← List.flatMap_def]

/-- Groups by their labels show all points, if only in another order. -/
theorem shown_grouped {isLine : Bool} {ds : List Dataset} (h : grouped isLine ps = .ok ds) :
    (∀ p ∈ ps, Form.real p.y = .ok (drawnValue p)) ∧
      (ds.flatMap fun d => d.data.map fun v => (d.label, v)).Perm
        (ps.map fun p => (groupLabel p, p.x, drawnValue p)) := by
  unfold grouped at h
  dsimp only at h
  split at h
  · cases h
  have hds : datasetsOf isLine (groupsBy groupLabel ps) = .ok ds := h
  obtain ⟨hreal, hshown⟩ := shown_datasetsOf hds
  have hperm := perm_groupsBy groupLabel ps
  -- all members of a group have its label
  have hlabels : ∀ g ∈ groupsBy groupLabel ps,
      (g.2.map fun p => (g.1, p.x, drawnValue p)) =
        g.2.map fun p => (groupLabel p, p.x, drawnValue p) := fun g hg =>
    List.map_congr_left fun p hp => by
      rw [(mem_groupsBy.1 hg).2] at hp
      rw [of_decide_eq_true (List.mem_filter.1 hp).2]
  constructor
  · intro p hp
    obtain ⟨g, hg, hp⟩ := List.mem_flatMap.1 (hperm.mem_iff.2 hp)
    exact hreal g hg p hp
  · rw [hshown, List.flatMap_def, List.map_congr_left hlabels, ← List.flatMap_def,
      ← List.map_flatMap]
    exact hperm.map _

/-- A layout shows its points, each under its label. -/
theorem shown_ofPoints {series : Series} (h : ofPoints r ps = .ok series) :
    (∀ p ∈ ps, Form.real p.y = .ok (drawnValue p)) ∧
      series.shown.Perm (ps.map fun p => (datasetLabel r p, p.x, drawnValue p)) := by
  unfold ofPoints at h
  split at h
  · next hgroup =>
    obtain ⟨ds, hds, h⟩ := Outcome.bind_eq_ok.1 h
    obtain ⟨labels, -, h⟩ := Outcome.bind_eq_ok.1 h
    cases h
    simp only [datasetLabel, if_pos hgroup]
    exact shown_grouped hds
  · next hgroup =>
    obtain ⟨d, hd, h⟩ := Outcome.bind_eq_ok.1 h
    obtain ⟨labels, -, h⟩ := Outcome.bind_eq_ok.1 h
    cases h
    obtain ⟨hreal, hlabel, hdata⟩ := dataset_eq_ok hd
    refine ⟨hreal, List.Perm.of_eq ?_⟩
    simp only [datasetLabel, if_neg hgroup]
    rw [shown, List.flatMap_singleton, hlabel, hdata, List.map_map]
    rfl

/-- The reduction of all values that share the key of a point. -/
def reduction (a : Aggregation) (r : ChartRequest) (ps : List Point) (p : Point) : Cell :=
  let key := pointKey (Form.given r.groupBy).isSome
  .number (a.reduce ((ps.filter fun q => key q = key p).map Point.value))

/-- Does the series show each key of the points once, with the reduction of all the
values under it?  It is shown at the x of the first point that has the key. -/
def Charts (series : Series) (r : ChartRequest) (a : Aggregation) (ps : List Point) : Prop :=
  let firsts := firstsBy (pointKey (Form.given r.groupBy).isSome) ps
  ∃ y : Point → Float, (∀ p ∈ firsts, Form.real (reduction a r ps p) = .ok (y p)) ∧
    series.shown.Perm (firsts.map fun p => (datasetLabel r p, p.x, y p))

end Series

/-! ### Drawing -/

namespace ChartRequest

variable {r : ChartRequest} {a : Aggregation} {name : String} {ps qs : List Point}

/-- Points with an ordinary x are drawn combined, if only in another order. -/
theorem perm_arranged (hps : ∀ p ∈ ps, p.Extracted) (hx : ∀ p ∈ ps, p.x.isOrdinary)
    (hname : Form.given r.aggregation = some name) (h : r.arranged ps = .ok qs) :
    ∃ a, ofName? name = some a ∧
      qs.Perm (a.combinedBy (pointKey (Form.given r.groupBy).isSome) ps) := by
  unfold arranged at h
  rw [hname] at h
  obtain ⟨combined, hcombined, h⟩ := Outcome.bind_eq_ok.1 h
  unfold pointsByName at hcombined
  split at hcombined
  case h_2 => cases hcombined
  next a ha =>
  refine ⟨a, ha, ?_⟩
  rw [points_of_extracted a _ hps] at hcombined
  split at hcombined
  case isFalse => cases hcombined
  cases hcombined
  split at h
  · -- a combined point has the x of one that has been taken from a row
    refine Point.perm_sortByX (fun q hq => ?_) (Store.ofConversion_eq_ok.1 h)
    obtain ⟨p, hp, hxp, -⟩ := (mem_combinedBy (fun _ _ => rfl) hq).1
    exact hxp ▸ hx p hp
  · cases h
    exact List.Perm.refl _

/-- What is drawn of points, combined, charts them. -/
theorem charts_of_arranged {series : Series}
    (hperm : qs.Perm (a.combinedBy (pointKey (Form.given r.groupBy).isSome) ps))
    (h : Series.ofPoints r qs = .ok series) : series.Charts r a ps := by
  obtain ⟨hreal, hshown⟩ := Series.shown_ofPoints h
  rw [combinedBy_eq] at hperm
  let combined (p : Point) : Point := { p with y := Series.reduction a r ps p }
  refine ⟨fun p => Series.drawnValue (combined p), fun p hp => ?_, ?_⟩
  · exact hreal (combined p) (hperm.mem_iff.2 (List.mem_map_of_mem hp))
  · refine hshown.trans ((hperm.map _).trans (List.Perm.of_eq ?_))
    rw [List.map_map]
    rfl

end ChartRequest

/-! ### Scanning -/

namespace Store

variable {s : Store} {owner : Ident} {p : Plotted} {sort : Option Sorting}

theorem required_of_checked {sel valid : Selection} (h : checked sel = .ok valid) :
    valid.required = sel.required := by
  obtain ⟨filters, -, h⟩ := Outcome.bind_eq_ok.1 h
  cases h
  rfl

/-- An owner's rows are read from the first of those that are found. -/
theorem rows_of_finds [Reader] {valid : Selection} {order : Order} {rows : List Row}
    (hvalid : checked ⟨owner, p.dataset, p.filters, p.required⟩ = .ok valid)
    (horder : Sorting.order sort = .ok order) (h : s.Finds valid order rows) {limit : Int}
    (hlimit : 1 ≤ limit) (hfits : limit < 2 ^ 63) :
    (s.chartSource owner).rows p sort limit = .ok ((rows.take limit.toNat).map (·.fields)) := by
  have hoffset : (1 - 1 : Int) * limit = 0 := Int.zero_mul limit
  have hpage := page_of_finds (p := 1) hvalid horder h (Int.le_refl 1) hlimit hfits
    (by rw [hoffset]; decide)
  refine Outcome.map_eq_ok.2 ⟨_, hpage, ?_⟩
  rw [hoffset, window_of_pos hlimit, Int.toNat_zero, List.drop_zero, List.map_map]
  rfl

/-- An owner's rows are read from the first of those that are found, and their count
is that of all of them. -/
theorem rows_chartSource [Reader] (hids : (s.rows.map (·.id)).Nodup) {limit : Int}
    (hlimit : 1 ≤ limit) (hfits : limit < 2 ^ 63) {out : List Fields}
    (h : (s.chartSource owner).rows p sort limit = .ok out) :
    ∃ valid order rows, checked ⟨owner, p.dataset, p.filters, p.required⟩ = .ok valid ∧
      Sorting.order sort = .ok order ∧ s.Finds valid order rows ∧
      (s.chartSource owner).count p = .ok rows.length ∧
      out = (rows.take limit.toNat).map (·.fields) := by
  obtain ⟨q, hq, -⟩ := Outcome.map_eq_ok.1 h
  obtain ⟨valid, order, rows, hvalid, horder, hfinds, -⟩ := finds_of_page hq hids
  refine ⟨valid, order, rows, hvalid, horder, hfinds, ?_, ?_⟩
  · exact Outcome.map_eq_ok.2 ⟨_, rowCount_eq_ok.2 ⟨valid, hvalid, hfinds.count⟩, rfl⟩
  · cases h.symm.trans (rows_of_finds hvalid horder hfinds hlimit hfits)
    rfl

end Store

namespace Point

variable {r : ChartRequest} {ps : List Point} {fields : Fields}

theorem isNull_of_required [Reader] {column : String} (hplain : Path.isPlain column)
    (h : (Condition.present column).holds fields = .ok true) :
    (fields.cell column).isNull = false := by
  have hfields := Condition.wellFormed_of_holds h
  cases hcell : fields.cell column with
  | null =>
    rw [(Condition.tests_present hplain).holds_of_null hfields hcell] at h
    cases h
  | _ => rfl

theorem isOrdinary_x (hfields : ∀ m ∈ fields, m.2.isOrdinary) {p : Point}
    (h : ofFields? r fields = .ok (some p)) : p.x.isOrdinary := by
  rcases ofFields?_cases h with ⟨hnone, -⟩ | ⟨v, -, hp⟩
  · cases hnone
  · cases hp
    show (cellOf fields r.xColumn).isOrdinary
    cases r.xColumn with
    | none => rfl
    | some column => exact Fields.isOrdinary_cell hfields column

/-- The value of a point that is taken from a row is a number. -/
theorem isNaN_value {p : Point} (h : ofFields? r fields = .ok (some p)) :
    p.value.isNaN = false := by
  rcases ofFields?_cases h with ⟨hnone, -⟩ | ⟨v, hv, hp⟩
  · cases hnone
  · cases hp
    exact Cell.isNaN_lenientNumber hv

/-- A row with a value on both axes has a point. -/
theorem exists_of_axes {x y : String} (hx : r.xColumn = some x) (hy : r.yColumn = some y)
    (hxs : (fields.cell x).isNull = false) (hys : (fields.cell y).isNull = false)
    {o : Option Point} (h : ofFields? r fields = .ok o) : o.isSome := by
  rcases ofFields?_cases h with ⟨-, hnull⟩ | ⟨v, -, rfl⟩
  · rw [hx, hy] at hnull
    rcases hnull with hnull | hnull
    · exact absurd hnull (Bool.eq_false_iff.1 hxs)
    · exact absurd hnull (Bool.eq_false_iff.1 hys)
  · rfl

theorem length_extract_le {rows : List Fields} (h : extract r rows = .ok ps) :
    ps.length ≤ rows.length := by
  obtain ⟨found, hfound, h⟩ := Outcome.bind_eq_ok.1 h
  cases h
  rw [(Outcome.mapM_eq_ok.1 hfound).length_eq]
  exact List.length_filterMap_le id found

/-- Where every row has a point, the points are those of the rows, one by one. -/
theorem forall₂_of_extract {rows : List Fields} (h : extract r rows = .ok ps)
    (hall : ∀ fields ∈ rows, ∀ o, ofFields? r fields = .ok o → o.isSome) :
    List.Forall₂ (fun fields p => ofFields? r fields = .ok (some p)) rows ps := by
  obtain ⟨found, hfound, h⟩ := Outcome.bind_eq_ok.1 h
  cases h
  have hpoints := Outcome.mapM_eq_ok.1 hfound
  clear hfound h
  induction hpoints with
  | nil => exact .nil
  | @cons fields o rows found ho _ ih =>
    obtain ⟨hsome, hall⟩ := List.forall_mem_cons.1 hall
    obtain ⟨p, rfl⟩ := Option.isSome_iff_exists.1 (hsome o ho)
    rw [List.filterMap_cons_some (f := id) rfl]
    exact .cons ho (ih hall)

theorem extract_of_forall₂ {rows : List Fields}
    (h : List.Forall₂ (fun fields p => ofFields? r fields = .ok (some p)) rows ps) :
    extract r rows = .ok ps := by
  refine Outcome.bind_eq_ok.2 ⟨ps.map some, Outcome.mapM_eq_ok.2 ?_, ?_⟩
  · exact List.forall₂_map_right_iff.2 h
  · show Except.ok _ = _
    simp [List.filterMap_map]

theorem length_of_extract {rows : List Fields} (h : extract r rows = .ok ps)
    (hall : ∀ fields ∈ rows, ∀ o, ofFields? r fields = .ok o → o.isSome) :
    ps.length = rows.length :=
  (forall₂_of_extract h hall).length_eq.symm

end Point

/-! ### Counting -/

namespace Series

variable {r : ChartRequest} {series : Series} {ps : List Point}

/-- The number of points that share the key of a point. -/
def shares (r : ChartRequest) (ps : List Point) (p : Point) : Nat :=
  let key := pointKey (Form.given r.groupBy).isSome
  (ps.filter fun q => key q = key p).length

/-- A point is counted if its value is a number. -/
theorem integralOf?_of_count (hnan : ∀ p ∈ ps, p.value.isNaN = false)
    (hlength : ps.length < twoTo 53) {p : Point} {y : Float}
    (h : Form.real (reduction .count r ps p) = .ok y) :
    Form.integralOf? y = some (shares r ps p : Int) := by
  have hvalues : ∀ v ∈ (ps.filter fun q => pointKey (Form.given r.groupBy).isSome q =
      pointKey (Form.given r.groupBy).isSome p).map Point.value, (!v.isNaN) = true := fun v hv => by
    obtain ⟨q, hq, rfl⟩ := List.mem_map.1 hv
    rw [hnan q (List.mem_filter.1 hq).1]
    rfl
  have hreduced : reduction .count r ps p = .number (.whole (shares r ps p)) := by
    show Cell.number (.whole (List.length (List.filter _ _))) = _
    rw [List.filter_eq_self.2 hvalues, List.length_map]
    rfl
  have hshares : shares r ps p < twoTo 53 :=
    Nat.lt_of_le_of_lt (List.length_filter_le _ ps) hlength
  rw [hreduced] at h
  exact Real.integralOf?_of_ofInt? hshares ((real_eq_ok rfl).1 h)

/-- The numbers of values that a series shows add up to the number of points. -/
theorem exists_counts (h : series.Charts r .count ps) (hnan : ∀ p ∈ ps, p.value.isNaN = false)
    (hlength : ps.length < twoTo 53) :
    ∃ n : String × Cell × Float → Nat,
      (∀ v ∈ series.shown, Form.integralOf? v.2.2 = some (n v : Int)) ∧
      (series.shown.map n).sum = ps.length := by
  obtain ⟨y, hy, hshown⟩ := h
  let n (v : String × Cell × Float) : Nat := ((Form.integralOf? v.2.2).getD 0).toNat
  have hcount : ∀ p ∈ firstsBy (pointKey (Form.given r.groupBy).isSome) ps,
      Form.integralOf? (y p) = some (shares r ps p : Int) :=
    fun p hp => integralOf?_of_count hnan hlength (hy p hp)
  have hn : ∀ p ∈ firstsBy (pointKey (Form.given r.groupBy).isSome) ps,
      n (datasetLabel r p, p.x, y p) = shares r ps p := fun p hp => by
    show ((Form.integralOf? (y p)).getD 0).toNat = _
    rw [hcount p hp]
    rfl
  refine ⟨n, fun v hv => ?_, ?_⟩
  · obtain ⟨p, hp, rfl⟩ := List.mem_map.1 (hshown.mem_iff.1 hv)
    rw [hn p hp]
    exact hcount p hp
  · rw [(hshown.map n).sum_eq, List.map_map]
    exact (congrArg List.sum (List.map_congr_left hn)).trans (sum_length_firstsBy _ ps)

end Series

/-! ### Charts of stored rows -/

namespace ChartRequest

variable {r : ChartRequest}

theorem given_eq_some {t : Option String} {s : String} (h : Form.given t = some s) : t = some s :=
  (Option.filter_eq_some_iff.1 h).1

/-- In a form without problems both axes are given. -/
theorem exists_axes (h : r.formProblems = []) :
    ∃ x y, r.xColumn = some x ∧ r.yColumn = some y ∧ r.axes = [x, y] := by
  unfold formProblems at h
  simp only [List.append_eq_nil_iff, problemIf_eq_nil_iff] at h
  obtain ⟨⟨⟨⟨hx, hy⟩, -⟩, -⟩, -⟩ := h
  obtain ⟨x, hx⟩ := Option.isSome_iff_exists.1 (Option.isNone_eq_false_iff.1 hx)
  obtain ⟨y, hy⟩ := Option.isSome_iff_exists.1 (Option.isNone_eq_false_iff.1 hy)
  refine ⟨x, y, given_eq_some hx, given_eq_some hy, ?_⟩
  rw [axes, List.filterMap_cons_some hx, List.filterMap_cons_some hy, List.filterMap_nil]

theorem generate_eq_ok {source : ChartSource} {series : Series}
    (h : r.generate source = .ok series) :
    ∃ verdict ps qs, r.validate source = .ok verdict ∧ verdict.isValid ∧
      r.scan source = .ok ps ∧ r.arranged ps = .ok qs ∧ Series.ofPoints r qs = .ok series := by
  obtain ⟨verdict, hverdict, h⟩ := Outcome.bind_eq_ok.1 h
  split at h
  · next hvalid =>
    obtain ⟨ps, hps, h⟩ := Outcome.bind_eq_ok.1 h
    obtain ⟨qs, hqs, h⟩ := Outcome.bind_eq_ok.1 h
    exact ⟨verdict, ps, qs, hverdict, hvalid, hps, hqs, h⟩
  · cases h

end ChartRequest

namespace Store

variable {s : Store} {owner : Ident} {r : ChartRequest} {rows : List Row} {ps : List Point}

/-- Where the names of the axes are plain, all matching rows have a point. -/
theorem length_of_matching [Reader] (hform : r.formProblems = []) {valid : Selection}
    (hvalid : checked ⟨owner, r.dataset, r.filters, r.axes⟩ = .ok valid)
    (hrows : ∀ row ∈ rows, valid.Matches row) (hplain : ∀ column ∈ r.axes, Path.isPlain column)
    (h : Point.extract r (rows.map (·.fields)) = .ok ps) : ps.length = rows.length := by
  obtain ⟨x, y, hx, hy, haxes⟩ := ChartRequest.exists_axes hform
  have hrequired : valid.required = [x, y] := (required_of_checked hvalid).trans haxes
  rw [haxes] at hplain
  -- the store has tested both axes on every row
  have hvalue : ∀ row ∈ rows, ∀ column ∈ [x, y], (row.fields.cell column).isNull = false :=
    fun row hrow column hcolumn => Point.isNull_of_required (hplain column hcolumn)
      ((hrows row hrow).required column (hrequired ▸ hcolumn))
  have hlength := Point.length_of_extract h fun fields hfields o ho => by
    obtain ⟨row, hrow, rfl⟩ := List.mem_map.1 hfields
    have hxs := hvalue row hrow x List.mem_cons_self
    have hys := hvalue row hrow y (List.mem_cons_of_mem x List.mem_cons_self)
    exact Point.exists_of_axes hx hy hxs hys ho
  rw [hlength, List.length_map]

/-- A chart that combines points and sets no limit is made of the first thousand of
the matching rows.  For a line they stand in the order of x as the store reads it, unless
the name of x stands for the places; else they stand by their places.  The chart shows
each key that points of these rows have, once, with the reduction of all their values
under the key.  The numbers of values add up to the number of points, and this is the
number of rows up to a thousand where the names of the axes are plain. -/
theorem generate_covers [Reader] (hs : s.Reachable) (hlimit : r.limit = none) {name : String}
    (hname : Form.given r.aggregation = some name) {series : Series}
    (h : r.generate (s.chartSource owner) = .ok series) :
    ∃ (a : Aggregation) (valid : Selection) (order : Order) (rows : List Row) (ps : List Point),
      ofName? name = some a ∧ checked ⟨owner, r.dataset, r.filters, r.axes⟩ = .ok valid ∧
      Sorting.order r.scanOrder = .ok order ∧
      order = ⟨if r.isLine then r.xColumn.filter (· ∉ placeKeys) else none, false⟩ ∧
      (∀ row, row ∈ rows ↔ row ∈ s.rows ∧ valid.Matches row) ∧ (rows.map (·.id)).Nodup ∧
      (rows.Pairwise fun a b => order.compare a b = .lt) ∧
      (s.chartSource owner).count r.plotted = .ok rows.length ∧
      Point.extract r ((rows.take 1000).map (·.fields)) = .ok ps ∧ series.Charts r a ps ∧
      (a = .count → ∃ n : String × Cell × Float → Nat,
        (∀ v ∈ series.shown, Form.integralOf? v.2.2 = some (n v : Int)) ∧
        (series.shown.map n).sum = ps.length) ∧
      ((∀ column ∈ r.axes, Path.isPlain column) → ps.length = min 1000 rows.length) := by
  have hids := hs.integral.rowIds
  obtain ⟨verdict, ps, qs, hverdict, hvalid, hscan, harranged, hseries⟩ :=
    ChartRequest.generate_eq_ok h
  have hform := (ChartRequest.validate_valid hverdict hvalid).1
  obtain ⟨fields, hfields, hps⟩ := Outcome.bind_eq_ok.1 hscan
  have hdefault : r.scanLimit = 1000 := by
    rw [ChartRequest.scanLimit, hlimit]
    rfl
  rw [hdefault] at hfields
  obtain ⟨valid, order, rows, hchecked, horder, hfinds, hcount, rfl⟩ :=
    rows_chartSource hids (by decide) (by decide) hfields
  obtain ⟨hmatches, hnodup, hpairwise⟩ := hfinds.spec hids
  have hscanned : ∀ row ∈ rows.take 1000, row ∈ s.rows ∧ valid.Matches row :=
    fun row hrow => (hmatches row).1 (List.mem_of_mem_take hrow)
  -- what the points hold is what is stored
  have hx : ∀ p ∈ ps, p.x.isOrdinary := fun p hp => by
    obtain ⟨fields, hfields, hp⟩ := Point.mem_of_extract hps hp
    obtain ⟨row, hrow, rfl⟩ := List.mem_map.1 hfields
    exact Point.isOrdinary_x (hs.isOrdinary row (hscanned row hrow).1) hp
  have hnan : ∀ p ∈ ps, p.value.isNaN = false := fun p hp => by
    obtain ⟨fields, -, hp⟩ := Point.mem_of_extract hps hp
    exact Point.isNaN_value hp
  have hbound : ps.length < twoTo 53 := by
    have hle := Point.length_extract_le hps
    rw [List.length_map, List.length_take] at hle
    exact Nat.lt_of_le_of_lt (Nat.le_trans hle (Nat.min_le_left ..)) (by decide)
  obtain ⟨a, ha, hperm⟩ :=
    ChartRequest.perm_arranged (Point.extracted_of_extract hps) hx hname harranged
  have hcharts := ChartRequest.charts_of_arranged hperm hseries
  refine ⟨a, valid, order, rows, ps, ha, hchecked, horder, ?_, hmatches, hnodup, hpairwise,
    hcount, hps, hcharts, ?_, fun hplain => ?_⟩
  · exact (Except.ok.inj (r.order_scanOrder.symm.trans horder)).symm
  · rintro rfl
    exact Series.exists_counts hcharts hnan hbound
  · rw [length_of_matching hform hchecked (fun row hrow => (hscanned row hrow).2) hplain hps,
      List.length_take]

/-- Three rows of two words, counted. -/
theorem generate_covers_three :
    let u : Upload := ⟨[.text "word", .text "cost"], [[.text "oak", .bool true],
      [.text "ash", .text "$2"], [.text "oak", .text "none"]], false⟩
    let s := empty.run [.ingest (some 1) (some "t") none u]
    let r : ChartRequest :=
      ⟨none, some "word", some "cost", some "line", some "count", none, none, []⟩
    s.Reachable ∧ ∃ series, r.generate (s.chartSource (some 1)) = .ok series ∧
      ∃ n : String × Cell × Float → Nat,
        (∀ v ∈ series.shown, Form.integralOf? v.2.2 = some (n v : Int)) ∧
        (series.shown.map n).sum = 3 := by
  intro u s r
  have hs : s.Reachable := ⟨_, rfl⟩
  have hdrawn : (r.generate (s.chartSource (some 1))).isOk = true := by decide +kernel
  have hcount : ((s.chartSource (some 1)).count r.plotted).toOption = some 3 := by decide +kernel
  cases hseries : r.generate (s.chartSource (some 1)) with
  | error e =>
    rw [hseries] at hdrawn
    cases hdrawn
  | ok series =>
    obtain ⟨a, valid, order, rows, ps, ha, -, -, -, -, -, -, hlength, -, -, hcounts, hpoints⟩ :=
      generate_covers hs rfl (by decide +kernel : Form.given r.aggregation = some "count") hseries
    rw [hlength] at hcount
    have hrows : (rows.length : Int) = 3 := Option.some.inj hcount
    have hcounting : a = .count := Option.some.inj (ha.symm.trans (by decide +kernel))
    obtain ⟨n, hn, hsum⟩ := hcounts hcounting
    have hpoints := hpoints (by decide +kernel)
    exact ⟨hs, series, rfl, n, hn, by omega⟩

/-- More than a thousand rows can be counted, and the chart that counts them shows a
thousand: what is combined ends with the scan. -/
theorem counts_stop_with_scan :
    let u : Upload := ⟨[.text "x"], List.replicate 26 [.bool true], false⟩
    let s := empty.run (List.replicate 39 (.ingest (some 1) (some "t") none u))
    let r : ChartRequest := ⟨none, some "x", some "x", some "bar", some "count", none, none, []⟩
    s.Reachable ∧ ((s.chartSource (some 1)).count r.plotted).toOption = some 1014 ∧
      (r.generate (s.chartSource (some 1))).toOption.map (fun series =>
        series.shown.map fun v => (v.2.1.label, Form.integralOf? v.2.2)) =
          some [("True", some 1000)] := by
  refine ⟨⟨_, rfl⟩, ?_, ?_⟩
  · decide +kernel
  · decide +kernel

end Store

end Gridbook
