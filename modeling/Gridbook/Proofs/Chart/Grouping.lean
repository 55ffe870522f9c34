/-
Gridbook/Proofs/Chart/Grouping.lean

Combining grouped points, and laying points out in groups.  Both divide the points
by the labels of their groups, but a missing group goes by the label "None" where
points are combined, and by "Unknown" where they are laid out.  A point without a
group may so be combined with one whose group is called "None", and be laid out next
to one whose group is called "Unknown" (`Point.Confused`).

Where no points are confused, combining and laying out can be exchanged: the groups
of the combined points are the groups of the points, combined by x
(`groupsBy_combined`).

Main statement: `ofPoints_combined`, what the layout of combined points shows.
-/
import Gridbook.Chart.Series
import Gridbook.Proofs.Chart.Combining
import Gridbook.Proofs.Real.Range
import Gridbook.Proofs.Sorting

namespace Gridbook

open Aggregation

/-- Do a point without a group and one with a group stand at the same x, the group
being called what a missing one is called? -/
structure Point.Confused (p q : Point) : Prop where
  missing : p.group.isNull
  present : q.group.isNull = false
  x : p.x.label = q.x.label
  called : q.group.label = "None" ∨ q.group.label = "Unknown"

theorem Point.confused_iff {p q : Point} : p.Confused q ↔
    p.group.isNull = true ∧ q.group.isNull = false ∧ p.x.label = q.x.label ∧
      (q.group.label = "None" ∨ q.group.label = "Unknown") :=
  ⟨fun h => ⟨h.missing, h.present, h.x, h.called⟩, fun ⟨hp, hq, hx, hc⟩ => ⟨hp, hq, hx, hc⟩⟩

instance (p q : Point) : Decidable (p.Confused q) :=
  decidable_of_iff _ Point.confused_iff.symm

namespace Series

variable {a : Aggregation} {r : ChartRequest} {ps : List Point}

/-- The dataset of a point, and its x there. -/
def place (p : Point) : String × String :=
  (groupLabel p, p.x.label)

theorem groupLabel_of_missing {p : Point} (h : p.group.isNull) : groupLabel p = "Unknown" :=
  if_pos h

theorem groupLabel_of_present {p : Point} (h : p.group.isNull = false) :
    groupLabel p = p.group.label := by
  rw [groupLabel, h]
  rfl

theorem label_of_missing {c : Cell} (h : c.isNull) : c.label = "None" := by
  cases c <;> first | rfl | cases h

/-- Points have different keys and one place, or one key and different places,
exactly if they are confused. -/
theorem pointKey_eq_iff {p q : Point} (hpq : ¬ p.Confused q) (hqp : ¬ q.Confused p) :
    pointKey true p = pointKey true q ↔ place p = place q := by
  simp only [pointKey, place, Prod.mk.injEq, if_true]
  rw [and_comm]
  refine and_congr_left fun hx => ?_
  cases hp : p.group.isNull with
  | true =>
    rw [groupLabel_of_missing hp, label_of_missing hp]
    cases hq : q.group.isNull with
    | true => simp [groupLabel_of_missing hq, label_of_missing hq]
    | false =>
      rw [groupLabel_of_present hq]
      refine iff_of_false (fun h => hpq ?_) (fun h => hpq ?_)
      · exact ⟨hp, hq, hx, .inl h.symm⟩
      · exact ⟨hp, hq, hx, .inr h.symm⟩
  | false =>
    rw [groupLabel_of_present hp]
    cases hq : q.group.isNull with
    | true =>
      rw [groupLabel_of_missing hq, label_of_missing hq]
      refine iff_of_false (fun h => hqp ?_) (fun h => hqp ?_)
      · exact ⟨hq, hp, hx.symm, .inl h⟩
      · exact ⟨hq, hp, hx.symm, .inr h⟩
    | false => rw [groupLabel_of_present hq]

/-! ### The groups of combined points -/

/-- The groups of combined points are the groups of the points, each of them combined
by x. -/
theorem groupsBy_combined (h : ∀ p ∈ ps, ∀ q ∈ ps, ¬ p.Confused q) :
    groupsBy groupLabel (a.combinedBy (pointKey true) ps) =
      (groupsBy groupLabel ps).map fun g => (g.1, a.combinedBy (fun p => p.x.label) g.2) := by
  have hplaces : a.combinedBy (pointKey true) ps = a.combinedBy place ps :=
    combinedBy_congr fun p hp q hq => pointKey_eq_iff (h p hp q hq) (h q hq p hp)
  have hkey : ∀ (p : Point) (y : Cell), place { p with y } = place p := fun _ _ => rfl
  have hlabels : distinct ((a.combinedBy place ps).map groupLabel) = distinct (ps.map groupLabel) := by
    have hmap : ∀ qs : List Point, qs.map groupLabel = (qs.map place).map Prod.fst := fun qs => by
      rw [List.map_map]
      rfl
    rw [hmap, hmap, map_key_combinedBy hkey, distinct_map_distinct]
  rw [hplaces, groupsBy_eq, groupsBy_eq, List.map_map, hlabels]
  refine List.map_congr_left fun label _ => congrArg (Prod.mk label) ?_
  -- in one group a place is told by the x
  have hgroup : ∀ p ∈ ps.filter fun p => groupLabel p = label, groupLabel p = label :=
    fun p hp => of_decide_eq_true (List.mem_filter.1 hp).2
  have hx : a.combinedBy place (ps.filter fun p => groupLabel p = label) =
      a.combinedBy (fun p => p.x.label) (ps.filter fun p => groupLabel p = label) := by
    refine combinedBy_congr fun p hp q hq => ?_
    simp [place, hgroup p hp, hgroup q hq]
  exact (filter_combinedBy hkey fun k => k.1 = label).trans hx

/-! ### Datasets -/

/-- A dataset that shows the values of another one reduced: each label of an x stands
once, where it first stands there, and its y is the reduction of all that are shown
there under this label. -/
structure Dataset.Reduces (a : Aggregation) (d d' : Dataset) : Prop where
  label : d'.label = d.label
  places : d'.data.map (fun v => v.1.label) = distinct (d.data.map fun v => v.1.label)
  values : ∀ v ∈ d'.data, Form.real (.number
    (a.reduce ((d.data.filter fun w => w.1.label = v.1.label).map (·.2)))) = .ok v.2

theorem drawn_eq_ok {p : Point} {v : Cell × Float} :
    drawn p = .ok v ↔ v.1 = p.x ∧ Form.real p.y = .ok v.2 := by
  rw [drawn, Outcome.map_eq_ok]
  constructor
  · rintro ⟨y, hy, rfl⟩
    exact ⟨rfl, hy⟩
  · rintro ⟨hx, hy⟩
    exact ⟨v.2, hy, Prod.ext hx.symm rfl⟩

theorem drawn_of_extracted {p : Point} (h : p.Extracted) : drawn p = .ok (p.x, p.value) :=
  drawn_eq_ok.2 ⟨rfl, by rw [h.y_eq]; rfl⟩

/-- What is drawn of points stands at their x. -/
theorem map_fst_of_drawn {data : List (Cell × Float)} (h : ps.mapM drawn = .ok data) :
    data.map (·.1) = ps.map (·.x) :=
  Outcome.map_of_mapM h fun _ _ hv => (drawn_eq_ok.1 hv).1

theorem real_eq_ok {n : Number} {y : Float} (hn : (Cell.number n).plain = .number n) :
    Form.real (.number n) = .ok y ↔ n.toReal? = some y := by
  simp only [Form.real, hn]
  cases n.toReal? <;> simp

/-- A reduction is a double, but for the number of more values than doubles reach. -/
theorem exists_real_reduce (vs : List Float) :
    (∃ y, Form.real (.number (a.reduce vs)) = .ok y) ∨ a = .count ∧ Real.reach ≤ vs.length := by
  cases a with
  | count =>
    rcases Nat.lt_or_ge (vs.filter (!·.isNaN)).length Real.reach with hlt | hge
    · rw [← Int.natAbs_natCast (vs.filter (!·.isNaN)).length] at hlt
      obtain ⟨y, hy⟩ := Real.exists_ofInt?_iff.2 hlt
      exact .inl ⟨y, (real_eq_ok rfl).2 hy⟩
    · exact .inr ⟨rfl, Nat.le_trans hge (List.length_filter_le _ vs)⟩
  | sum => exact .inl ⟨_, rfl⟩
  | avg => exact .inl ⟨_, rfl⟩
  | min => exact .inl ⟨_, rfl⟩
  | max => exact .inl ⟨_, rfl⟩

/-- The dataset of points that have been combined by x shows the values of their
dataset reduced. -/
theorem reduces_dataset (isLine : Bool) (label fill line : String) (hps : ∀ p ∈ ps, p.Extracted)
    (hcount : ¬ (a = .count ∧ Real.reach ≤ ps.length)) {d : Dataset}
    (hd : dataset isLine label fill line ps = .ok d) :
    ∃ d', dataset isLine label fill line (a.combinedBy (fun p => p.x.label) ps) = .ok d' ∧
      d.Reduces a d' := by
  let qs := a.combinedBy (fun p => p.x.label) ps
  have hkey : ∀ (p : Point) (y : Cell), { p with y }.x.label = p.x.label := fun _ _ => rfl
  have hreduced : ∀ q ∈ qs, q.y =
      .number (a.reduce ((ps.filter fun p => p.x.label = q.x.label).map Point.value)) :=
    fun q hq => (mem_combinedBy hkey hq).2
  have hdrawn : ∀ q ∈ qs, ∃ v, drawn q = .ok v := fun q hq => by
    let vs := (ps.filter fun p => p.x.label = q.x.label).map Point.value
    have hlength : vs.length ≤ ps.length := by
      rw [List.length_map]
      exact List.length_filter_le _ ps
    have hreal : ∃ y, Form.real (.number (a.reduce vs)) = .ok y :=
      (exists_real_reduce vs).resolve_right fun h => hcount ⟨h.1, Nat.le_trans h.2 hlength⟩
    obtain ⟨y, hy⟩ := hreal
    exact ⟨(q.x, y), drawn_eq_ok.2 ⟨rfl, hreduced q hq ▸ hy⟩⟩
  have hdata : ps.mapM drawn = .ok (ps.map fun p => (p.x, p.value)) :=
    Outcome.mapM_of_forall fun p hp => drawn_of_extracted (hps p hp)
  obtain ⟨data, hqs⟩ := Outcome.exists_mapM_eq_ok hdrawn
  unfold dataset at hd
  rw [hdata] at hd
  cases hd
  refine ⟨_, Outcome.bind_eq_ok.2 ⟨data, hqs, rfl⟩, rfl, ?_, fun v hv => ?_⟩
  · have hlabels : data.map (fun v => v.1.label) = qs.map fun q => q.x.label := by
      have hxs := congrArg (List.map Cell.label) (map_fst_of_drawn hqs)
      rwa [List.map_map, List.map_map] at hxs
    rw [List.map_map]
    exact hlabels.trans (map_key_combinedBy hkey)
  · obtain ⟨q, hq, hv⟩ := Outcome.exists_of_mem_mapM hqs hv
    obtain ⟨hx, hy⟩ := drawn_eq_ok.1 hv
    rw [hx, List.filter_map, List.map_map]
    exact hreduced q hq ▸ hy

/-! ### Layouts -/

theorem hasKey_iff {p : Point} : hasKey true p ↔ p.x.hasText ∧ p.group.hasText := by
  simp [hasKey]

theorem xLabels_of_texts (h : ∀ p ∈ ps, p.x.hasText) :
    xLabels ps = .ok (ps.map fun p => p.x.label) :=
  Outcome.mapM_of_forall fun p hp => by rw [Cell.label?, if_pos (h p hp)]; rfl

theorem xLabels_of_no_text {p : Point} (hp : p ∈ ps) (h : p.x.hasText = false) :
    xLabels ps = .error (.conversion .badValue) := by
  induction ps with
  | nil => cases hp
  | cons q qs ih =>
    unfold xLabels at ih ⊢
    rw [List.mapM_cons, Cell.label?]
    cases hq : q.x.hasText with
    | false => rfl
    | true =>
      rcases List.mem_cons.1 hp with rfl | hp
      · rw [h] at hq
        cases hq
      · rw [ih hp]
        rfl

/-- The dataset of the group number `i`, in its colour. -/
def datasetOf (isLine : Bool) (i : Nat) (g : String × List Point) : Except Error Dataset :=
  dataset isLine g.1 (color i) (color i) g.2

/-- The datasets of groups. -/
def datasetsOf (isLine : Bool) (gs : List (String × List Point)) : Except Error (List Dataset) :=
  (gs.mapIdx fun i g => (i, g)).mapM fun g => datasetOf isLine g.1 g.2

theorem mem_of_mem_mapIdx {α : Type} {as : List α} {g : Nat × α}
    (h : g ∈ as.mapIdx fun i a => (i, a)) : g.2 ∈ as := by
  obtain ⟨i, hi, rfl⟩ := List.mem_mapIdx.1 h
  exact List.getElem_mem hi

theorem exists_datasets (isLine : Bool) (hps : ∀ p ∈ ps, p.Extracted) :
    ∃ ds, datasetsOf isLine (groupsBy groupLabel ps) = .ok ds := by
  refine Outcome.exists_mapM_eq_ok fun g hg => ?_
  have hmembers := mem_of_mem_groupsBy (mem_of_mem_mapIdx hg)
  exact ⟨_, Outcome.bind_eq_ok.2 ⟨_, Outcome.mapM_of_forall fun p hp =>
    drawn_of_extracted (hps p (hmembers p hp)), rfl⟩⟩

theorem datasetsOf_map (isLine : Bool) (f : String × List Point → String × List Point)
    (gs : List (String × List Point)) :
    datasetsOf isLine (gs.map f) =
      (gs.mapIdx fun i g => (i, g)).mapM fun g => datasetOf isLine g.1 (f g.2) := by
  have hmap : ((gs.map f).mapIdx fun i g => (i, g)) =
      (gs.mapIdx fun i g => (i, g)).map fun g => (g.1, f g.2) :=
    List.ext_getElem (by simp) fun i _ _ => by simp
  rw [datasetsOf, hmap, List.mapM_map]
  rfl

/-- Points whose keys have texts are laid out in their groups. -/
theorem ofPoints_of_keys (hgroup : (Form.given r.groupBy).isSome) (h : ∀ p ∈ ps, hasKey true p) :
    ofPoints r ps = (datasetsOf r.isLine (groupsBy groupLabel ps)).map fun ds =>
      ⟨Text.sortedDistinct (ps.map fun p => p.x.label), ds⟩ := by
  have hgroups : ps.all (fun p => p.group.hasText) = true :=
    List.all_eq_true.2 fun p hp => (hasKey_iff.1 (h p hp)).2
  unfold ofPoints grouped
  rw [if_pos hgroup, hgroups, xLabels_of_texts fun p hp => (hasKey_iff.1 (h p hp)).1]
  rfl

theorem ofPoints_of_no_key (hgroup : (Form.given r.groupBy).isSome) (hps : ∀ p ∈ ps, p.Extracted)
    {p : Point} (hp : p ∈ ps) (h : hasKey true p = false) :
    ofPoints r ps = .error (.conversion .badValue) := by
  unfold ofPoints grouped
  rw [if_pos hgroup]
  cases hgroups : ps.all (fun p => p.group.hasText) with
  | false => rfl
  | true =>
    obtain ⟨ds, hds⟩ := exists_datasets r.isLine hps
    have hx : p.x.hasText = false := by
      have hlabel := List.all_eq_true.1 hgroups p hp
      simpa [hasKey, hlabel] using h
    rw [xLabels_of_no_text hp hx]
    show (datasetsOf r.isLine (groupsBy groupLabel ps) >>= fun _ => _) = _
    rw [hds]
    rfl

/-- Where no points are confused, the layout of the combined points shows what the
layout of the points shows, with the values at each place reduced; only the number of
more values than doubles reach has no place in it.  Where the points have no layout,
the combined points have none either. -/
theorem ofPoints_combined (hgroup : (Form.given r.groupBy).isSome) (hps : ∀ p ∈ ps, p.Extracted)
    (hconfused : ∀ p ∈ ps, ∀ q ∈ ps, ¬ p.Confused q) (a : Aggregation) :
    (∀ plain, ofPoints r ps = .ok plain →
      (∃ combined, (a.points true ps >>= ofPoints r) = .ok combined ∧
        combined.labels = plain.labels ∧
        List.Forall₂ (Dataset.Reduces a) plain.datasets combined.datasets) ∨
      a = .count ∧ Real.reach ≤ ps.length) ∧
    ∀ e, ofPoints r ps = .error e → (a.points true ps >>= ofPoints r) = .error e := by
  rw [points_of_extracted a true hps]
  by_cases hkeys : ∀ p ∈ ps, hasKey true p
  · have hkey : ∀ (p : Point) (y : Cell), pointKey true { p with y } = pointKey true p :=
      fun _ _ => rfl
    have hcombinedKeys : ∀ q ∈ a.combinedBy (pointKey true) ps, hasKey true q := fun q hq => by
      obtain ⟨p, hp, hx, hg⟩ := (mem_combinedBy hkey hq).1
      rw [hasKey, hx, hg]
      exact hkeys p hp
    have hlabels : Text.sortedDistinct ((a.combinedBy (pointKey true) ps).map fun p => p.x.label) =
        Text.sortedDistinct (ps.map fun p => p.x.label) := by
      have hmap : ∀ qs : List Point, (qs.map fun p => p.x.label) =
          (qs.map (pointKey true)).map Prod.fst := fun qs => by
        rw [List.map_map]
        rfl
      apply Text.sortedDistinct_congr
      intro x
      rw [hmap, hmap, map_key_combinedBy hkey]
      simp only [List.mem_map, mem_distinct]
    obtain ⟨ds, hds⟩ := exists_datasets r.isLine hps
    rw [if_pos (List.all_eq_true.2 hkeys), ofPoints_of_keys hgroup hkeys, hds]
    refine ⟨?_, nofun⟩
    rintro plain ⟨⟩
    rw [or_iff_not_imp_right]
    intro hcount
    have hreduced : ∃ ds', datasetsOf r.isLine
        (groupsBy groupLabel (a.combinedBy (pointKey true) ps)) = .ok ds' ∧
        List.Forall₂ (Dataset.Reduces a) ds ds' := by
      rw [groupsBy_combined hconfused, datasetsOf_map]
      refine Outcome.exists_mapM_related hds fun g hg d hd => ?_
      have hg := mem_of_mem_mapIdx hg
      refine reduces_dataset _ _ _ _ (fun p hp => hps p (mem_of_mem_groupsBy hg p hp)) ?_ hd
      refine fun h => hcount ⟨h.1, Nat.le_trans h.2 ?_⟩
      rw [(mem_groupsBy.1 hg).2]
      exact List.length_filter_le _ ps
    obtain ⟨ds', hds', hreduces⟩ := hreduced
    refine ⟨⟨_, ds'⟩, ?_, hlabels, hreduces⟩
    show ofPoints r (a.combinedBy (pointKey true) ps) = _
    rw [ofPoints_of_keys hgroup hcombinedKeys, hds']
    rfl
  · have hall : ps.all (hasKey true) = false :=
      Bool.eq_false_iff.2 fun h => hkeys (List.all_eq_true.1 h)
    push Not at hkeys
    obtain ⟨p, hp, hnone⟩ := hkeys
    rw [hall, ofPoints_of_no_key hgroup hps hp (Bool.eq_false_iff.2 hnone)]
    exact ⟨nofun, fun e he => he⟩

/-- Points without a group at one x, and one in a group called "None" at another. -/
theorem ofPoints_combined_missing :
    let r : ChartRequest :=
      ⟨none, some "x", some "y", some "bar", some "sum", some "g", none, []⟩
    let ps : List Point := [⟨.text "a", .number (.real 1), .null⟩,
      ⟨.text "b", .number (.real 2), .text "None"⟩, ⟨.text "a", .number (.real 4), .null⟩]
    ∃ plain combined, ofPoints r ps = .ok plain ∧
      (Aggregation.sum.points true ps >>= ofPoints r) = .ok combined ∧
      List.Forall₂ (Dataset.Reduces .sum) plain.datasets combined.datasets := by
  intro r ps
  have hps : ∀ p ∈ ps, p.Extracted := by
    simp only [ps, List.forall_mem_cons]
    exact ⟨⟨1, rfl⟩, ⟨2, rfl⟩, ⟨4, rfl⟩, nofun⟩
  have hconfused : ∀ p ∈ ps, ∀ q ∈ ps, ¬ p.Confused q := by decide +kernel
  have hlayout : (ofPoints r ps).isOk = true := by decide +kernel
  cases hplain : ofPoints r ps with
  | error e =>
    rw [hplain] at hlayout
    cases hlayout
  | ok plain =>
    have hagrees := (ofPoints_combined rfl hps hconfused .sum).1 plain hplain
    obtain ⟨combined, hcombined, -, hreduces⟩ := hagrees.resolve_right (nomatch ·.1)
    exact ⟨plain, combined, rfl, hcombined, hreduces⟩

/-- A group called "None" is lost in a missing group when the points are combined, and
one called "Unknown" is combined apart from it, so that both stand at the same place. -/
theorem missing_group_confused :
    let r : ChartRequest :=
      ⟨none, some "x", some "y", some "bar", some "sum", some "g", none, []⟩
    let ps (name : String) : List Point :=
      [⟨.text "a", .number (.real 1), .null⟩, ⟨.text "a", .number (.real 2), .text name⟩]
    let shown (s : Series) : List (String × List String) :=
      s.datasets.map fun d => (d.label, d.data.map fun v => v.1.label)
    (ofPoints r (ps "None")).toOption.map shown = some [("Unknown", ["a"]), ("None", ["a"])] ∧
    (Aggregation.sum.points true (ps "None") >>= ofPoints r).toOption.map shown =
      some [("Unknown", ["a"])] ∧
    (ofPoints r (ps "Unknown")).toOption.map shown = some [("Unknown", ["a", "a"])] ∧
    (Aggregation.sum.points true (ps "Unknown") >>= ofPoints r).toOption.map shown =
      some [("Unknown", ["a", "a"])] := by
  decide +kernel

end Series

end Gridbook
