/-
Gridbook/Proofs/Chart/Limiting.lean

What the limit of a line chart leaves out.  The limit cuts the rows in the order of the
store, and the points that are left are put in the order of the chart.  The two orders are
one for numbers that the store reads as they are (whole ones of 64 bits, and doubles by the
C library or with few digits), for texts without a NUL, for numbers beside texts, lists and
objects, and for truth values among themselves (`compare_of_sortedAlike`).  They differ on
truth values beside others, which are numbers to the store and texts to the chart, and a
column whose name stands for the places does not order the rows at all
(`limit_keeps_greater`).

Main statement: a line chart shows the x of the rows before the cut, and none of them comes
after the x of a row behind the cut in the order of the store, nor in that of the chart
where the two are one (`limit_keeps_least`).
-/
import Gridbook.Proofs.Chart.Scanning
import Gridbook.Proofs.Store.Fields
import Gridbook.Proofs.Store.Reader

namespace Gridbook

/-! ### Numbers that are read as they are -/

namespace Number

/-- Does the store read the number as it is? -/
def isScalar [reader : Reader] (n : Number) : Bool :=
  (reader.number n).compare n == .eq

variable [reader : Reader] {m n : Number}

theorem compare_of_isScalar (hm : m.isScalar) (hn : n.isScalar) :
    (reader.number m).compare (reader.number n) = m.compare n :=
  (Std.TransCmp.congr_left (beq_iff_eq.1 hm)).trans (Std.TransCmp.congr_right (beq_iff_eq.1 hn))

theorem isScalar_iff : n.isScalar ↔ (reader.number n).place = n.place :=
  beq_iff_eq.trans compare_eq_eq_iff

theorem isScalar_whole {n : Int} (h : fitsWord n) : (whole n).isScalar :=
  isScalar_iff.2 (congrArg place (Reader.number_of_fitsWord h))

theorem isScalar_closest (hreader : reader = .closest) (x : Float) : (real x).isScalar := by
  subst hreader
  exact isScalar_iff.2 rfl

theorem isScalar_short {x : Float} {sign : List Char} {l : Literal} (hx : Real.isFinite x)
    (h : Numeral.Spells (real x) sign l) (hshort : Numeral.IsShort l) : (real x).isScalar :=
  isScalar_iff.2 (place_congr (reader.near_real hx h hshort.isOrdinary).1
    (parts_ne_nan_of_isFinite hx) (reader.level_real_short hx h hshort))

end Number

/-! ### The two orders -/

namespace Cell

/-- Are the two cells of kinds that the store and a chart sort alike? -/
def sortedAlike [Reader] : Cell → Cell → Bool
  | bool _, bool _ => true
  | text s, text t => '\x00' ∉ s.toList && '\x00' ∉ t.toList
  | number m, number n => m.isScalar && n.isScalar
  | number _, c => c.sortKind == 2
  | c, number _ => c.sortKind == 2
  | _, _ => false

theorem sortCompare_numbers [Reader] {m n : Number} (hm : m.isScalar) (hn : n.isScalar) :
    (number m).sortCompare (number n) = m.compare n := by
  rw [← Number.compare_of_isScalar hm hn]
  simp [sortCompare, sortKind, sortNumber, sortText, Std.ReflCmp.compare_self]

theorem sortText_text {s : String} (h : '\x00' ∉ s.toList) : (text s).sortText = s := by
  have hwhole : s.toList.takeWhile (· != '\x00') = s.toList :=
    List.takeWhile_eq_self_iff.2 fun c hc => bne_iff_ne.2 fun he => h (he ▸ hc)
  rw [sortText, hwhole, String.ofList_toList]

theorem sortCompare_texts [Reader] {s t : String} (hs : '\x00' ∉ s.toList)
    (ht : '\x00' ∉ t.toList) : (text s).sortCompare (text t) = compare s t := by
  rw [sortCompare, sortText_text hs, sortText_text ht]
  simp [sortKind, sortNumber, Std.ReflCmp.compare_self]

/-- A chart compares the texts of what is neither a number nor typed. -/
theorem exists_text_of_key {c : Cell} (hc : c.isOrdinary) (hkind : c.sortKind = 2)
    {k : Point.Key} (hk : Point.Key.ofCell c = .ok k) : ∃ s, k = .text s := by
  have hlabel : c.label?.map Point.Key.text = .ok k := by
    cases c with
    | null => cases hkind
    | bool b => cases hkind
    | number n => cases hkind
    | typed t => cases hc
    | _ => exact hk
  obtain ⟨s, -, rfl⟩ := Outcome.map_eq_ok.1 hlabel
  exact ⟨s, rfl⟩

/-- Cells that are sorted alike compare alike. -/
theorem compare_of_sortedAlike [Reader] {a b : Cell} (h : a.sortedAlike b) (ha : a.isOrdinary)
    (hb : b.isOrdinary) {k l : Point.Key} (hk : Point.Key.ofCell a = .ok k)
    (hl : Point.Key.ofCell b = .ok l) : k.compare l = a.sortCompare b := by
  unfold sortedAlike at h
  split at h
  case h_1 p q =>
    cases hk
    cases hl
    simp only [sortCompare, sortKind, sortNumber, sortText]
    cases p <;> cases q <;> decide +kernel
  case h_2 s t =>
    obtain ⟨hs, ht⟩ := Bool.and_eq_true_iff.1 h
    cases hk
    cases hl
    exact (sortCompare_texts (of_decide_eq_true hs) (of_decide_eq_true ht)).symm
  case h_3 m n =>
    obtain ⟨hm, hn⟩ := Bool.and_eq_true_iff.1 h
    cases hk
    cases hl
    exact (sortCompare_numbers hm hn).symm
  -- a number comes before what is compared by its text
  case h_4 m _ =>
    have hkind : b.sortKind = 2 := beq_iff_eq.1 h
    obtain ⟨s, rfl⟩ := exists_text_of_key hb hkind hl
    cases hk
    rw [sortCompare, hkind]
    rfl
  case h_5 n _ =>
    have hkind : a.sortKind = 2 := beq_iff_eq.1 h
    obtain ⟨s, rfl⟩ := exists_text_of_key ha hkind hk
    cases hl
    rw [sortCompare, hkind]
    rfl
  case h_6 => cases h

end Cell

/-! ### Points of the rows before the cut -/

namespace Point

variable {r : ChartRequest} {ps : List Point}

/-- Where every row has a point, the points have the x of the rows. -/
theorem map_x_of_extract {rows : List Fields} (h : extract r rows = .ok ps)
    (hall : ∀ fields ∈ rows, ∀ o, ofFields? r fields = .ok o → o.isSome) :
    ps.map (·.x) = rows.map fun fields => cellOf fields r.xColumn := by
  have hpoints := forall₂_of_extract h hall
  clear h hall
  induction hpoints with
  | nil => rfl
  | @cons fields p rows ps hp _ ih =>
    rcases ofFields?_cases hp with ⟨hnone, -⟩ | ⟨v, -, hp⟩
    · cases hnone
    · cases hp
      rw [List.map_cons, List.map_cons, ih]

end Point

namespace ChartRequest

variable {r : ChartRequest} {x : String} {order : Order}

theorem ne_empty_of_mem_axes (h : x ∈ r.axes) : x ≠ "" := by
  obtain ⟨t, -, hgiven⟩ := List.mem_filterMap.1 h
  rintro rfl
  exact absurd (Option.filter_eq_some_iff.1 hgiven).2 (by decide)

/-- A line is scanned in the order of its x, unless the name stands for the places. -/
theorem order_of_isLine (hline : r.isLine) (hx : r.xColumn = some x) (hkey : x ∉ placeKeys)
    (h : Sorting.order r.scanOrder = .ok order) : order = ⟨some x, false⟩ := by
  rw [order_scanOrder, if_pos hline, hx, Option.filter_some, if_pos (decide_eq_true hkey)] at h
  exact (Except.ok.inj h).symm

end ChartRequest

namespace Store

variable {s : Store} {owner : Ident} {r : ChartRequest} {x y : String} {valid : Selection}
  {rows kept left : List Row}

/-- Every row that is plotted has a point. -/
theorem Plots.isSome_points [Reader] (h : s.Plots owner r x y valid rows)
    (hkept : ∀ row ∈ kept, row ∈ rows) : ∀ fields ∈ kept.map (·.fields), ∀ o,
      Point.ofFields? r fields = .ok o → o.isSome := by
  intro fields hfields o ho
  obtain ⟨row, hrow, rfl⟩ := List.mem_map.1 hfields
  obtain ⟨-, -, -, hx, hy⟩ := (h.mem row).1 (hkept row hrow)
  exact Point.exists_of_axes h.xColumn h.yColumn (by simpa [Fields.has] using hx)
    (by simpa [Fields.has] using hy) ho

/-- The points of plotted rows have the x of the rows. -/
theorem Plots.map_x [Reader] (h : s.Plots owner r x y valid rows) (hkept : ∀ row ∈ kept, row ∈ rows)
    {ps : List Point} (hps : Point.extract r (kept.map (·.fields)) = .ok ps) :
    ps.map (·.x) = kept.map (·.fields.cell x) := by
  rw [Point.map_x_of_extract hps (h.isSome_points hkept), List.map_map, h.xColumn]
  rfl

/-- What is drawn of the points of some plotted rows, if they are not combined, stands at the
x of these rows. -/
theorem Plots.perm_shown [Reader] (h : s.Plots owner r x y valid rows) (hs : s.Reachable)
    (hnone : Form.given r.aggregation = none) (hkept : ∀ row ∈ kept, row ∈ rows)
    {ps qs : List Point} (hps : Point.extract r (kept.map (·.fields)) = .ok ps)
    (hqs : r.arranged ps = .ok qs) {series : Series} (hdrawn : Series.ofPoints r qs = .ok series) :
    (series.shown.map (·.2.1)).Perm (kept.map (·.fields.cell x)) := by
  have hordinary := isOrdinary_of_extract hs
    (fun row hrow => ((h.mem row).1 (hkept row hrow)).1) hps
  have hshown := (Series.shown_ofPoints hdrawn).2.map (·.2.1)
  rw [List.map_map] at hshown
  rw [← h.map_x hkept hps]
  exact hshown.trans ((ChartRequest.perm_arranged_of_none hordinary hnone hqs).map (·.x))

/-! ### The cut -/

/-- Of two rows in the order of a plain column the first one has no greater field. -/
theorem isLE_of_order [Reader] (hplain : Path.isPlain x) (hx : x ≠ "") {a b : Row}
    (ha : Native.wellFormedMembers a.fields) (hb : Native.wellFormedMembers b.fields)
    (h : Order.compare ⟨some x, false⟩ a b = .lt) : (Row.compareBy x a b).isLE := by
  have hkey : ∀ {row : Row}, Native.wellFormedMembers row.fields →
      Order.key x row = .ofCell (row.fields.cell x) := fun hrow => by
    rw [Order.key, Native.extract_of_plain hplain hrow]
    rfl
  have hfields : Native.compare (Order.key x a) (Order.key x b) = Row.compareBy x a b := by
    rw [hkey ha, hkey hb]
    exact Cell.compare_ofCell _ _
  rw [Order.compare, given_of_ne_empty hx] at h
  rw [← hfields]
  rcases Ordering.then_eq_lt.1 h with hlt | ⟨heq, -⟩
  · exact Ordering.isLE_of_eq_lt hlt
  · exact Ordering.isLE_of_eq_eq heq

/-- Plotted rows that are found in the order of the x stand in the order of their fields. -/
theorem Plots.pairwise_isLE [Reader] (h : s.Plots owner r x y valid rows)
    (hfinds : s.Finds valid ⟨some x, false⟩ rows) (hids : (s.rows.map (·.id)).Nodup)
    (hplain : Path.isPlain x) : rows.Pairwise fun a b => (Row.compareBy x a b).isLE := by
  obtain ⟨hmatches, -, hpairwise⟩ := hfinds.spec hids
  have haxis : x ∈ r.axes := h.axes ▸ List.mem_cons_self
  -- both columns are tested in every row that is found, so each can be looked into
  have hlegible : ∀ row ∈ rows, Native.wellFormedMembers row.fields := fun row hrow =>
    Condition.wellFormed_of_holds
      (((hmatches row).1 hrow).2.required x (required_of_checked h.checked ▸ haxis))
  refine hpairwise.imp_of_mem fun ha hb hlt => ?_
  exact isLE_of_order hplain (ChartRequest.ne_empty_of_mem_axes haxis) (hlegible _ ha)
    (hlegible _ hb) hlt

/-- Wherever plotted rows are cut that are found in the order of the x, no row before the cut
has a greater x than one behind it. -/
theorem Plots.isLE_of_cut [Reader] (h : s.Plots owner r x y valid (kept ++ left))
    (hfinds : s.Finds valid ⟨some x, false⟩ (kept ++ left)) (hids : (s.rows.map (·.id)).Nodup)
    (hplain : Path.isPlain x) :
    ∀ a ∈ kept, ∀ b ∈ left, (Row.compareBy x a b).isLE :=
  (List.pairwise_append.1 (h.pairwise_isLE hfinds hids hplain)).2.2

/-- A line that does not combine points is drawn from the rows that its limit keeps, of all
those that are plotted, and shows the x of each of them.  No x that it shows comes after the
x of a row that the limit leaves out: not as the store sorts them, and not as the chart sorts
them where the store sorts them alike. -/
theorem limit_keeps_least [Reader] (hs : s.Reachable)
    (hplain : ∀ column ∈ r.axes, Path.isPlain column)
    (hline : r.isLine) (hnone : Form.given r.aggregation = none) (hx : r.xColumn = some x)
    (hkey : x ∉ placeKeys) {series : Series}
    (h : r.generate (s.chartSource owner) = .ok series) :
    ∃ (y : String) (valid : Selection) (kept left : List Row),
      s.Plots owner r x y valid (kept ++ left) ∧
      (kept.length : Int) = min (r.limit.getD ChartRequest.defaultScan) (kept ++ left).length ∧
      (series.shown.map (·.2.1)).Perm (kept.map (·.fields.cell x)) ∧
      ∀ row ∈ left, ∀ v ∈ series.shown,
        (v.2.1.sortCompare (row.fields.cell x)).isLE ∧
        (v.2.1.sortedAlike (row.fields.cell x) → ∀ k l, Point.Key.ofCell v.2.1 = .ok k →
          Point.Key.ofCell (row.fields.cell x) = .ok l → (k.compare l).isLE) := by
  obtain ⟨verdict, ps, qs, hverdict, hvalid, hscan, harranged, hdrawn⟩ :=
    ChartRequest.generate_eq_ok h
  have hform := (ChartRequest.validate_valid hverdict hvalid).1
  obtain ⟨x', y, valid, order, rows, hplots, -, -, horder, hfinds, -, hscanned⟩ :=
    exists_scanned hs hplain hverdict hvalid
  cases hx.symm.trans hplots.xColumn
  obtain ⟨fields, hfields, hps⟩ := Outcome.bind_eq_ok.1 hscan
  have hpos := (limit_of_rows hfields).1
  cases hscanned fields hfields
  cases ChartRequest.order_of_isLine hline hx hkey horder
  have hxs := hplots.perm_shown hs hnone (fun _ => List.mem_of_mem_take) hps harranged hdrawn
  have hrows := (List.take_append_drop r.scanLimit.toNat rows).symm
  refine ⟨y, valid, rows.take r.scanLimit.toNat, rows.drop r.scanLimit.toNat, hrows ▸ hplots, ?_,
    hxs, fun row hrow v hv => ?_⟩
  · rw [← hrows, List.length_take, ← ChartRequest.scanLimit_eq hform]
    omega
  -- an x that is shown is that of a row before the cut
  obtain ⟨before, hbefore, hcell⟩ :=
    List.mem_map.1 (hxs.mem_iff.1 (List.mem_map_of_mem (f := (·.2.1)) hv))
  have hle : (v.2.1.sortCompare (row.fields.cell x)).isLE := by
    rw [← hcell]
    exact Plots.isLE_of_cut (hrows ▸ hplots) (hrows ▸ hfinds) hs.integral.rowIds
      (hplain x (hplots.axes ▸ List.mem_cons_self)) before hbefore row hrow
  refine ⟨hle, fun halike k l hk hl => ?_⟩
  have hordinary : ∀ row ∈ rows, (row.fields.cell x).isOrdinary := fun row hrow =>
    Fields.isOrdinary_cell (hs.isOrdinary row ((hplots.mem row).1 hrow).1) x
  rw [Cell.compare_of_sortedAlike halike (hcell ▸ hordinary before (List.mem_of_mem_take hbefore))
    (hordinary row (List.mem_of_mem_drop hrow)) hk hl]
  exact hle

/-- The two least of four numbers and texts. -/
theorem limit_keeps_least_two :
    let u : Upload := ⟨[.text "n", .text "v"],
      [[.number (.whole 100), .bool true], [.text "9", .bool true],
        [.number (.whole 10), .bool true], [.number (.whole 2), .bool true]], false⟩
    let s := empty.run [.ingest (some 1) (some "t") none u]
    let r : ChartRequest := ⟨none, some "n", some "v", some "line", none, none, some 2, []⟩
    s.Reachable ∧ (∀ column ∈ r.axes, Path.isPlain column) ∧
      ∃ series, r.generate (s.chartSource (some 1)) = .ok series ∧
        series.shown.map (·.2.1.label) = ["2", "10"] ∧
        ∃ (valid : Selection) (kept left : List Row),
          s.Plots (some 1) r "n" "v" valid (kept ++ left) ∧
          (series.shown.map (·.2.1)).Perm (kept.map (·.fields.cell "n")) ∧
          ∀ row ∈ left, ∀ v ∈ series.shown, (v.2.1.sortCompare (row.fields.cell "n")).isLE := by
  intro u s r
  have hs : s.Reachable := ⟨_, rfl⟩
  have hplain : ∀ column ∈ r.axes, Path.isPlain column := by decide +kernel
  obtain ⟨series, hseries, hlabels⟩ : ∃ series, r.generate (s.chartSource (some 1)) = .ok series ∧
      series.shown.map (·.2.1.label) = ["2", "10"] := Outcome.of_toOption_map (by decide +kernel)
  obtain ⟨y, valid, kept, left, hplots, -, hxs, hleast⟩ :=
    limit_keeps_least hs hplain rfl rfl rfl (by decide) hseries
  cases hplots.yColumn
  exact ⟨hs, hplain, series, hseries, hlabels, valid, kept, left, hplots, hxs,
    fun row hrow v hv => (hleast row hrow v hv).1⟩

/-- The store takes a truth value for one or zero, which comes before five; the chart takes
it for a text, which comes after all numbers.  And where the column of the x is called like
the places, the limit keeps the rows that have come first. -/
theorem limit_keeps_greater :
    let chart (column : String) : ChartRequest :=
      ⟨none, some column, some column, some "line", none, none, some 1, []⟩
    let stored (column : String) (a b : Cell) : Store :=
      empty.run [.ingest (some 1) (some "t") none ⟨[.text column], [[a], [b]], false⟩]
    let shown (column : String) (s : Store) : Option (List String) :=
      ((chart column).generate (s.chartSource (some 1))).toOption.map fun series =>
        series.shown.map (·.2.1.label)
    shown "x" (stored "x" (.bool true) (.number (.whole 5))) = some ["True"] ∧
      Point.Key.compare (.number (.whole 5)) (.text "True") = .lt ∧
      shown "index" (stored "index" (.number (.whole 9)) (.number (.whole 2))) = some ["9"] ∧
      Point.Key.compare (.number (.whole 2)) (.number (.whole 9)) = .lt := by
  refine ⟨?_, rfl, ?_, ?_⟩
  · decide +kernel
  · decide +kernel
  · decide +kernel

end Store

end Gridbook
