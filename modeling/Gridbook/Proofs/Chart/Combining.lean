/-
Gridbook/Proofs/Chart/Combining.lean

Combining points as they are taken from rows, whose y is a double.  The points are
combined that share a key, and a combined point has the x and the group of the
first of them (`combinedBy`).  A key is whatever can be told without the y.

Main statements: combining gives one point for each key (`map_key_combinedBy`), with
the reduction of all values under the key (`mem_combinedBy`), and it fails only
where a label has no text (`points_of_extracted`).
-/
import Gridbook.Chart.Aggregation
import Gridbook.Proofs.Groups
import Gridbook.Proofs.Outcome

namespace Gridbook

namespace Point

/-- Is the y of the point a double, as it is in points that are taken from rows? -/
def Extracted (p : Point) : Prop :=
  ∃ v, p.y = .number (.real v)

/-- The y of such a point. -/
def value (p : Point) : Float :=
  match p.y with
  | .number (.real v) => v
  | _ => 0

variable {r : ChartRequest} {p : Point} {ps : List Point}

theorem Extracted.y_eq (h : p.Extracted) : p.y = .number (.real p.value) := by
  obtain ⟨v, hv⟩ := h
  rw [value, hv]

/-- The cell of a column, null where no column is given. -/
def cellOf (fields : Fields) (column : Option String) : Cell :=
  (column.map fields.cell).getD .null

/-- A row that has been read has a point with its values on the axes, or one of the two
is missing. -/
theorem ofFields?_cases {fields : Fields} {o : Option Point} (h : ofFields? r fields = .ok o) :
    (o = none ∧ ((cellOf fields r.xColumn).isNull ∨ (cellOf fields r.yColumn).isNull)) ∨
      ∃ v, (cellOf fields r.yColumn).lenientNumber = .ok v ∧
        o = some ⟨cellOf fields r.xColumn, .number (.real v),
          cellOf fields (Form.given r.groupBy)⟩ := by
  unfold ofFields? at h
  dsimp only at h
  split at h
  · next hnull =>
    cases h
    exact .inl ⟨rfl, Bool.or_eq_true_iff.1 hnull⟩
  split at h
  · next v hv =>
    cases h
    exact .inr ⟨v, hv, rfl⟩
  · cases h

theorem extracted_of_ofFields? {fields : Fields} (h : ofFields? r fields = .ok (some p)) :
    p.Extracted := by
  rcases ofFields?_cases h with ⟨hnone, -⟩ | ⟨v, -, hp⟩
  · cases hnone
  · cases hp
    exact ⟨v, rfl⟩

/-- The points of rows are the points of those rows that have one. -/
theorem mem_of_extract {rows : List Fields} (h : extract r rows = .ok ps) (hp : p ∈ ps) :
    ∃ fields ∈ rows, ofFields? r fields = .ok (some p) := by
  obtain ⟨found, hfound, h⟩ := Outcome.bind_eq_ok.1 h
  cases h
  obtain ⟨o, ho, rfl⟩ := List.mem_filterMap.1 hp
  exact Outcome.exists_of_mem_mapM hfound ho

theorem extracted_of_extract {rows : List Fields} (h : extract r rows = .ok ps) :
    ∀ p ∈ ps, p.Extracted := fun _ hp => by
  obtain ⟨_, -, hfields⟩ := mem_of_extract h hp
  exact extracted_of_ofFields? hfields

end Point

namespace Aggregation

variable {κ : Type} [DecidableEq κ] {a : Aggregation} {ps : List Point}

/-- The first of some points, with the reduction of the values of all. -/
def merged (a : Aggregation) (members : List Point) : Option Point :=
  members.head?.map fun p => { p with y := .number (a.reduce (members.map Point.value)) }

/-- The points with those combined that share a key. -/
def combinedBy (a : Aggregation) (key : Point → κ) (ps : List Point) : List Point :=
  ((groupsBy key ps).map (·.2)).filterMap a.merged

/-- Keys that tell the same points apart combine the same points. -/
theorem combinedBy_congr {ι : Type} [DecidableEq ι] {key : Point → κ} {key' : Point → ι}
    (h : ∀ p ∈ ps, ∀ q ∈ ps, key p = key q ↔ key' p = key' q) :
    a.combinedBy key ps = a.combinedBy key' ps :=
  congrArg (List.filterMap a.merged) (map_snd_groupsBy_congr ps h)

/-- Where the values of the points are known, combining fails only for a label without a
text: the first point with each key is kept, with the reduction of the values of all that
have the key. -/
theorem points_of_values (a : Aggregation) (grouped : Bool) {value : Point → Float}
    (h : ∀ p ∈ ps, pointValue p.y = .ok (value p)) :
    a.points grouped ps =
      if ps.all (hasKey grouped) then
        .ok ((firstsBy (pointKey grouped) ps).map fun p => { p with y := .number (a.reduce
          ((ps.filter fun q => pointKey grouped q = pointKey grouped p).map value)) })
      else .error (.conversion .badValue) := by
  have hvalues : (ps.mapM fun p => (Error.ofConversion (pointValue p.y)).map fun v => (p, v)) =
      .ok (ps.map fun p => (p, value p)) :=
    Outcome.mapM_of_forall fun p hp => by rw [h p hp]; rfl
  -- the pairs of points and values have the groups of the points
  have hgroups : groups ((ps.map fun p => (p, value p)).map fun pv => (pointKey grouped pv.1, pv)) =
      (groupsBy (pointKey grouped) ps).map fun g => (g.1, g.2.map fun p => (p, value p)) :=
    groupsBy_map (fun pv : Point × Float => pointKey grouped pv.1) _ ps
  unfold points
  rw [hvalues]
  show (if !ps.all (hasKey grouped) then _ else _) = _
  cases ps.all (hasKey grouped) with
  | false => rfl
  | true =>
    show Except.ok _ = Except.ok _
    rw [hgroups, List.filterMap_map]
    let combined (p : Point) (members : List Point) : Point :=
      { p with y := .number (a.reduce (members.map value)) }
    refine congrArg _ (.trans (List.filterMap_congr fun g _ => ?_)
      (filterMap_groupsBy (pointKey grouped) combined ps))
    show a.combine (g.2.map _) = g.2.head?.map _
    cases g.2 with
    | nil => rfl
    | cons p rest =>
      rw [List.map_cons, combine, List.map_map]
      rfl

/-! ### The combined points -/

/-- A combined point is the first one with its key, with the reduction of the values of
all that have the key. -/
theorem combinedBy_eq (a : Aggregation) (key : Point → κ) (ps : List Point) :
    a.combinedBy key ps = (firstsBy key ps).map fun p =>
      { p with y := .number (a.reduce ((ps.filter fun q => key q = key p).map Point.value)) } := by
  rw [combinedBy, List.filterMap_map]
  exact filterMap_groupsBy key
    (fun p members => { p with y := .number (a.reduce (members.map Point.value)) }) ps

/-- Where the y is told by the double, the combined points are those of the doubles. -/
theorem points_of_extracted (a : Aggregation) (grouped : Bool) (h : ∀ p ∈ ps, p.Extracted) :
    a.points grouped ps =
      if ps.all (hasKey grouped) then .ok (a.combinedBy (pointKey grouped) ps)
      else .error (.conversion .badValue) := by
  rw [combinedBy_eq]
  exact points_of_values a grouped fun p hp => by rw [(h p hp).y_eq]; rfl

section Keys

variable {key : Point → κ} (hkey : ∀ (p : Point) (y : Cell), key { p with y } = key p)

include hkey

/-- There is one combined point for each key. -/
theorem map_key_combinedBy : (a.combinedBy key ps).map key = distinct (ps.map key) := by
  rw [combinedBy_eq, List.map_map, ← map_key_firstsBy]
  exact List.map_congr_left fun p _ => hkey p _

/-- A combined point is one of the points but for its y, which is the reduction of all
values under its key. -/
theorem mem_combinedBy {q : Point} (hq : q ∈ a.combinedBy key ps) :
    (∃ p ∈ ps, q.x = p.x ∧ q.group = p.group) ∧
      q.y = .number (a.reduce ((ps.filter fun p => key p = key q).map Point.value)) := by
  rw [combinedBy_eq] at hq
  obtain ⟨p, hp, rfl⟩ := List.mem_map.1 hq
  refine ⟨⟨p, mem_of_mem_firstsBy hp, rfl, rfl⟩, ?_⟩
  rw [hkey p (.number _)]

/-- Of the combined points, those with some of the keys are what the points with
these keys combine to. -/
theorem filter_combinedBy (keep : κ → Bool) :
    (a.combinedBy key ps).filter (fun q => keep (key q)) =
      a.combinedBy key (ps.filter fun p => keep (key p)) := by
  unfold combinedBy
  rw [← filter_groupsBy, List.filterMap_map, List.filterMap_map, List.filter_filterMap,
    List.filterMap_filter]
  refine List.filterMap_congr fun g hg => ?_
  obtain ⟨p, rest, hmembers, hp⟩ := exists_head_of_mem_groupsBy hg
  show (a.merged g.2).filter (fun q => keep (key q)) = if keep g.1 then a.merged g.2 else none
  rw [hmembers, merged, List.head?_cons, Option.map_some, Option.filter_some, hkey, hp]

end Keys

end Aggregation

end Gridbook
