/-
Gridbook/Proofs/Chart/Partitioning.lean

How points are divided into datasets.  Without groups there is one dataset of all points.
With groups each point is in the dataset of its label, and in no other: the datasets have
distinct labels, in the order in which these first occur, and each has the points with its
label as they stand.

Main statement: points are laid out exactly if their labels have texts and their values are
doubles, and the layout divides them (`ofPoints_partition`).
-/
import Gridbook.Proofs.Chart.Coverage

namespace Gridbook.Series

variable {r : ChartRequest} {ps : List Point} {series : Series}

/-! ### Points that can be drawn -/

/-- Have the labels of the point texts, and is its value a double? -/
structure Drawable (r : ChartRequest) (p : Point) : Prop where
  x : p.x.hasText
  group : (Form.given r.groupBy).isSome → p.group.hasText
  y : ∃ v, Form.real p.y = .ok v

/-- A point as it is drawn, its value being a double. -/
def mark (p : Point) : Cell × Float :=
  (p.x, drawnValue p)

theorem xLabels_eq_ok {labels : List String} :
    xLabels ps = .ok labels ↔ (∀ p ∈ ps, p.x.hasText) ∧ labels = ps.map fun p => p.x.label := by
  constructor
  · intro h
    have htexts : ∀ p ∈ ps, p.x.hasText := fun p hp => by
      by_contra hnone
      rw [xLabels_of_no_text hp (Bool.not_eq_true _ ▸ hnone)] at h
      cases h
    rw [xLabels_of_texts htexts] at h
    exact ⟨htexts, (Except.ok.inj h).symm⟩
  · rintro ⟨htexts, rfl⟩
    exact xLabels_of_texts htexts

theorem exists_dataset {isLine : Bool} {label fill line : String}
    (h : ∀ p ∈ ps, ∃ v, Form.real p.y = .ok v) :
    ∃ d, dataset isLine label fill line ps = .ok d := by
  obtain ⟨data, hdata⟩ : ∃ data, ps.mapM drawn = .ok data :=
    Outcome.exists_mapM_eq_ok fun p hp => by
      obtain ⟨v, hv⟩ := h p hp
      exact ⟨(p.x, v), drawn_eq_ok.2 ⟨rfl, hv⟩⟩
  exact ⟨_, Outcome.bind_eq_ok.2 ⟨data, hdata, rfl⟩⟩

/-- Lines take their colour on the border, bars in the fill. -/
theorem colors_of_dataset {isLine : Bool} {label fill line : String} {d : Dataset}
    (h : dataset isLine label fill line ps = .ok d) :
    d.backgroundColor = (if isLine then none else some fill) ∧
      d.borderColor = (if isLine then some line else none) ∧
      d.borderWidth = (if isLine then 2 else 1) := by
  obtain ⟨data, -, h⟩ := Outcome.bind_eq_ok.1 h
  cases h
  exact ⟨rfl, rfl, rfl⟩

theorem color_eq (i : Nat) : palette[i % 8]? = some (color i) := by
  have hlt : i % 8 < palette.length := Nat.mod_lt i (by decide)
  rw [List.getElem?_eq_getElem hlt, color]
  exact congrArg some (List.getD_eq_getElem _ _ hlt).symm

/-! ### Datasets of groups -/

/-- Do these datasets divide the points by the labels of their groups? -/
structure Divides (isLine : Bool) (ps : List Point) (ds : List Dataset) : Prop where
  labels : ∀ l, l ∈ ds.map (·.label) ↔ l ∈ ps.map groupLabel
  order : (ds.map (·.label)).Pairwise fun k l =>
    (ps.map groupLabel).findIdx (· = k) < (ps.map groupLabel).findIdx (· = l)
  data : ∀ d ∈ ds, d.data = (ps.filter fun p => groupLabel p = d.label).map mark
  colors : ∀ i d, ds[i]? = some d →
    d.backgroundColor = (if isLine then none else palette[i % 8]?) ∧
      d.borderColor = (if isLine then palette[i % 8]? else none) ∧
      d.borderWidth = (if isLine then 2 else 1)

theorem grouped_eq_ok {isLine : Bool} {ds : List Dataset} :
    grouped isLine ps = .ok ds ↔
      (∀ p ∈ ps, p.group.hasText) ∧ datasetsOf isLine (groupsBy groupLabel ps) = .ok ds := by
  unfold grouped
  dsimp only
  rw [← List.all_eq_true]
  cases ps.all (·.group.hasText) with
  | false => exact ⟨nofun, nofun⟩
  | true => exact (and_iff_right rfl).symm

/-- The datasets of groups have the labels of the groups, each once. -/
theorem labels_of_grouped {isLine : Bool} {ds : List Dataset} (h : grouped isLine ps = .ok ds) :
    ds.map (·.label) = distinct (ps.map groupLabel) := by
  rw [← map_fst_groupsBy, ← map_mapIdx_snd (fun g : String × List Point => g.1)]
  exact Outcome.map_of_mapM (grouped_eq_ok.1 h).2 fun g d hd => (dataset_eq_ok hd).2.1

theorem divides_of_grouped {isLine : Bool} {ds : List Dataset} (h : grouped isLine ps = .ok ds) :
    Divides isLine ps ds := by
  have hds := (grouped_eq_ok.1 h).2
  have hlabels := labels_of_grouped h
  refine ⟨fun l => ?_, ?_, fun d hd => ?_, fun i d hd => ?_⟩
  · rw [hlabels, mem_distinct]
  · rw [hlabels]
    exact pairwise_findIdx_distinct _
  · -- the data of a dataset are those of the group that it is made of
    obtain ⟨g, hg, hd⟩ := Outcome.exists_of_mem_mapM hds hd
    obtain ⟨-, hlabel, hdata⟩ := dataset_eq_ok hd
    rw [hdata, hlabel, (mem_groupsBy.1 (mem_of_mem_mapIdx hg)).2]
    rfl
  · -- the dataset number `i` is made of the group number `i`
    obtain ⟨hlength, hall⟩ := List.forall₂_iff_get.1 (Outcome.mapM_eq_ok.1 hds)
    obtain ⟨hi, rfl⟩ := List.getElem?_eq_some_iff.1 hd
    have hgroup := colors_of_dataset (hall i (hlength ▸ hi) hi)
    simp only [List.get_eq_getElem, List.getElem_mapIdx] at hgroup
    rw [color_eq]
    exact hgroup

/-! ### Layouts -/

/-- Does the layout divide the points? -/
structure Partitions (r : ChartRequest) (ps : List Point) (series : Series) : Prop where
  all : (series.datasets.flatMap (·.data)).Perm (ps.map mark)
  grouped : (Form.given r.groupBy).isSome → Divides r.isLine ps series.datasets ∧
    series.labels.Pairwise (· < ·) ∧ ∀ l, l ∈ series.labels ↔ l ∈ ps.map fun p => p.x.label
  single : Form.given r.groupBy = none → (∃ d, series.datasets = [d] ∧ d.data = ps.map mark) ∧
    series.labels = ps.map fun p => p.x.label

theorem ofPoints_of_group (h : (Form.given r.groupBy).isSome) :
    ofPoints r ps = .ok series ↔ ∃ ds labels, grouped r.isLine ps = .ok ds ∧
      xLabels ps = .ok labels ∧ series = ⟨Text.sortedDistinct labels, ds⟩ := by
  rw [ofPoints, if_pos h, Outcome.bind_eq_ok]
  refine exists_congr fun ds => ?_
  rw [Outcome.bind_eq_ok]
  constructor
  · rintro ⟨hds, labels, hlabels, h⟩
    exact ⟨labels, hds, hlabels, (Except.ok.inj h).symm⟩
  · rintro ⟨labels, hds, hlabels, rfl⟩
    exact ⟨hds, labels, hlabels, rfl⟩

theorem ofPoints_of_no_group (h : Form.given r.groupBy = none) :
    ofPoints r ps = .ok series ↔ ∃ d labels,
      dataset r.isLine (columnTitle r.yColumn ++ " vs " ++ columnTitle r.xColumn) singleFill
        singleLine ps = .ok d ∧ xLabels ps = .ok labels ∧ series = ⟨labels, [d]⟩ := by
  rw [ofPoints, h, if_neg (by decide)]
  dsimp only
  rw [Outcome.bind_eq_ok]
  refine exists_congr fun d => ?_
  rw [Outcome.bind_eq_ok]
  constructor
  · rintro ⟨hd, labels, hlabels, h⟩
    exact ⟨labels, hd, hlabels, (Except.ok.inj h).symm⟩
  · rintro ⟨labels, hd, hlabels, rfl⟩
    exact ⟨hd, labels, hlabels, rfl⟩

/-- The datasets of a layout have the labels of the groups, each once, or that of the two
columns. -/
theorem labels_of_ofPoints (h : ofPoints r ps = .ok series) :
    series.datasets.map (·.label) =
      if (Form.given r.groupBy).isSome then distinct (ps.map groupLabel)
      else [columnTitle r.yColumn ++ " vs " ++ columnTitle r.xColumn] := by
  cases hgroup : Form.given r.groupBy with
  | none =>
    obtain ⟨d, labels, hd, -, rfl⟩ := (ofPoints_of_no_group hgroup).1 h
    exact congrArg (fun l => [l]) (dataset_eq_ok hd).2.1
  | some column =>
    obtain ⟨ds, labels, hds, -, rfl⟩ := (ofPoints_of_group (hgroup ▸ rfl)).1 h
    exact labels_of_grouped hds

/-- A dataset of a layout has the points with its label, as they stand. -/
theorem data_of_ofPoints (h : ofPoints r ps = .ok series) : ∀ d ∈ series.datasets,
    d.data = (ps.filter fun p => datasetLabel r p = d.label).map mark := by
  intro d hd
  unfold datasetLabel
  cases hgroup : Form.given r.groupBy with
  | none =>
    obtain ⟨e, labels, he, -, rfl⟩ := (ofPoints_of_no_group hgroup).1 h
    cases List.mem_singleton.1 hd
    obtain ⟨-, hlabel, hdata⟩ := dataset_eq_ok he
    have hall : (ps.filter fun _ => columnTitle r.yColumn ++ " vs " ++ columnTitle r.xColumn =
        d.label) = ps := List.filter_eq_self.2 fun _ _ => decide_eq_true hlabel.symm
    rw [hdata]
    exact congrArg (List.map mark) hall.symm
  | some column =>
    obtain ⟨ds, labels, hds, -, rfl⟩ := (ofPoints_of_group (hgroup ▸ rfl)).1 h
    exact (divides_of_grouped hds).data d hd

/-- Points that can all be drawn are laid out. -/
theorem exists_ofPoints (h : ∀ p ∈ ps, Drawable r p) : ∃ series, ofPoints r ps = .ok series := by
  have hlabels := xLabels_of_texts fun p hp => (h p hp).x
  cases hgroup : Form.given r.groupBy with
  | none =>
    obtain ⟨d, hd⟩ := exists_dataset fun p hp => (h p hp).y
    exact ⟨_, (ofPoints_of_no_group hgroup).2 ⟨d, _, hd, hlabels, rfl⟩⟩
  | some column =>
    have hsome : (Form.given r.groupBy).isSome := hgroup ▸ rfl
    obtain ⟨ds, hds⟩ : ∃ ds, datasetsOf r.isLine (groupsBy groupLabel ps) = .ok ds :=
      Outcome.exists_mapM_eq_ok fun g hg => exists_dataset fun p hp =>
        (h p (mem_of_mem_groupsBy (mem_of_mem_mapIdx hg) p hp)).y
    have hgrouped := grouped_eq_ok.2 ⟨fun p hp => (h p hp).group hsome, hds⟩
    exact ⟨_, (ofPoints_of_group hsome).2 ⟨ds, _, hgrouped, hlabels, rfl⟩⟩

/-- What is laid out could be drawn. -/
theorem drawable_of_ofPoints (h : ofPoints r ps = .ok series) : ∀ p ∈ ps, Drawable r p := by
  intro p hp
  have hy : ∃ v, Form.real p.y = .ok v := ⟨_, (shown_ofPoints h).1 p hp⟩
  cases hgroup : Form.given r.groupBy with
  | none =>
    obtain ⟨d, labels, -, hlabels, -⟩ := (ofPoints_of_no_group hgroup).1 h
    exact ⟨(xLabels_eq_ok.1 hlabels).1 p hp, fun hsome => by simp [hgroup] at hsome, hy⟩
  | some column =>
    obtain ⟨ds, labels, hds, hlabels, -⟩ := (ofPoints_of_group (hgroup ▸ rfl)).1 h
    exact ⟨(xLabels_eq_ok.1 hlabels).1 p hp, fun _ => (grouped_eq_ok.1 hds).1 p hp, hy⟩

/-- A layout divides the points that are laid out. -/
theorem partitions_of_ofPoints (h : ofPoints r ps = .ok series) : Partitions r ps series := by
  refine ⟨?_, fun hgroup => ?_, fun hgroup => ?_⟩
  · -- without their labels, the points that are shown are the data of the datasets
    have hshown := (shown_ofPoints h).2.map (·.2)
    rw [shown, List.map_flatMap, List.map_map] at hshown
    simp only [List.map_map, Function.comp_def, List.map_id'] at hshown
    exact hshown
  · obtain ⟨ds, labels, hds, hlabels, rfl⟩ := (ofPoints_of_group hgroup).1 h
    rw [(xLabels_eq_ok.1 hlabels).2]
    exact ⟨divides_of_grouped hds, Text.pairwise_sortedDistinct _,
      fun l => Text.mem_sortedDistinct⟩
  · obtain ⟨d, labels, hd, hlabels, rfl⟩ := (ofPoints_of_no_group hgroup).1 h
    exact ⟨⟨d, rfl, (dataset_eq_ok hd).2.2⟩, (xLabels_eq_ok.1 hlabels).2⟩

/-- Points are laid out exactly if all can be drawn, and then the layout divides them. -/
theorem ofPoints_partition (r : ChartRequest) (ps : List Point) :
    ((∃ series, ofPoints r ps = .ok series) ↔ ∀ p ∈ ps, Drawable r p) ∧
      ∀ series, ofPoints r ps = .ok series → Partitions r ps series :=
  ⟨⟨fun ⟨_, h⟩ => drawable_of_ofPoints h, exists_ofPoints⟩, fun _ => partitions_of_ofPoints⟩

/-- A missing group and one that is called as a missing one is shown are one dataset. -/
theorem ofPoints_partition_missing :
    let ps : List Point := [⟨.text "b", .number (.whole 1), .null⟩,
      ⟨.text "a", .number (.whole 2), .text "g"⟩, ⟨.text "a", .bool true, .text "Unknown"⟩]
    let r : ChartRequest := ⟨none, none, none, none, none, some "g", none, []⟩
    ∃ series, ofPoints r ps = .ok series ∧ Partitions r ps series ∧
      series.datasets.map (fun d => (d.label, d.data.length)) = [("Unknown", 2), ("g", 1)] ∧
      series.labels = ["a", "b"] := by
  intro ps r
  obtain ⟨series, hseries, hshown⟩ : ∃ series, ofPoints r ps = .ok series ∧
      (series.datasets.map (fun d => (d.label, d.data.length)), series.labels) =
        ([("Unknown", 2), ("g", 1)], ["a", "b"]) := Outcome.of_toOption_map (by decide +kernel)
  obtain ⟨hdatasets, hlabels⟩ := Prod.mk.inj hshown
  exact ⟨series, hseries, (ofPoints_partition r ps).2 series hseries, hdatasets, hlabels⟩

/-- A group without a text keeps its point from being laid out, though its value is a
double. -/
theorem group_without_text_undrawn :
    let p : Point := ⟨.text "a", .number (.whole 1), .number (.whole (10 ^ 4300))⟩
    let r : ChartRequest := ⟨none, none, none, none, none, some "g", none, []⟩
    (∃ v, Form.real p.y = .ok v) ∧ ofPoints r [p] = .error (.conversion .badValue) := by
  intro p r
  refine ⟨?_, ?_⟩
  · exact (Outcome.of_toOption_map (f := fun _ => ()) (b := ()) (by decide +kernel)).imp
      fun v h => h.1
  · have htext : [p].all (·.group.hasText) = false := by decide +kernel
    rw [ofPoints, if_pos (by decide +kernel), grouped, htext]
    rfl

end Gridbook.Series
