/-
Gridbook/Proofs/Query/Listing.lean

The list of columns.  It is made from the first place of each name in the datasets,
which stand with the latest first; so a name is listed once, with the kind that its
latest dataset shows (`mem_firstPlaces_iff_latest`).  That kind is judged by the first
values that are not null, in the order of the rows: the store leaves out the rows
without a value before it counts, so that none of the sample is wasted
(`Reachable.sample_eq`).

A sample may hold a whole number beyond the doubles, and then there is no kind, and no
list either: a list is answered exactly where all that is sampled is within them.

Main statement: what an owner's list of columns is, and when there is one
(`columns_typed`).
-/
import Gridbook.Proofs.Chart.Scanning
import Gridbook.Proofs.Chart.Sorting
import Gridbook.Proofs.Groups
import Gridbook.Proofs.SavedColumns
import Gridbook.Proofs.Store.Writing

namespace Gridbook

/-! ### Kinds -/

namespace Kind

theorem isNumeric_eq_error {c : Cell} (h : ¬ c.isWithin) : isNumeric c = .error .overflow := by
  unfold Cell.isWithin at h
  unfold isNumeric
  cases hplain : c.plain with
  | number n =>
    rw [hplain] at h
    have hnone : n.toReal? = none := Option.not_isSome_iff_eq_none.1 h
    show (Cell.realOfNumber n).map _ = _
    rw [Cell.realOfNumber, hnone]
    rfl
  | _ =>
    rw [hplain] at h
    exact absurd rfl h

/-- Cells that are not all within the doubles have no kind. -/
theorem ofCells_eq_error {cells : List Cell} (h : ¬ ∀ c ∈ cells, c.isWithin) :
    ofCells cells = .error .overflow := by
  obtain ⟨c, hc, hbeyond⟩ : ∃ c ∈ cells, ¬ c.isWithin := by simpa using h
  have hnumeric : cells.mapM isNumeric = .error .overflow := by
    refine Outcome.mapM_eq_error_of_mem (fun d _ => ?_) hc (isNumeric_eq_error hbeyond)
    by_cases hd : d.isWithin
    · exact .inl (exists_isNumeric hd)
    · exact .inr (isNumeric_eq_error hd)
  rw [ofCells, hnumeric]
  rfl

end Kind

/-! ### The latest dataset -/

/-- Was the dataset stored before the other one? -/
def Dataset.IsOlder (d e : Dataset) : Prop :=
  d.uploaded < e.uploaded ∨ d.uploaded = e.uploaded ∧ d.id < e.id

theorem Dataset.IsOlder.asymm {d e : Dataset} (h : d.IsOlder e) : ¬ e.IsOlder d := by
  unfold IsOlder at *
  omega

/-- The order in which datasets are listed. -/
def Dataset.compare (d e : Dataset) : Ordering :=
  (Ord.compare e.uploaded d.uploaded).then (Ord.compare e.id d.id)

instance : Std.TransCmp Dataset.compare :=
  inferInstanceAs (Std.TransCmp fun d e => compareLex (compareOn fun d : Dataset => d.uploaded)
    (compareOn fun d => d.id) e d)

theorem Dataset.isOlder_of_compare {d e : Dataset} (h : (d.compare e).isLE) (hid : d.id ≠ e.id) :
    e.IsOlder d := by
  rw [Dataset.compare] at h
  rcases Ordering.isLE_iff_eq_lt_or_eq_eq.1 h with hlt | heq
  · rcases Ordering.then_eq_lt.1 hlt with huploaded | ⟨huploaded, hid⟩
    · exact .inl (Nat.compare_eq_lt.1 huploaded)
    · exact .inr ⟨Nat.compare_eq_eq.1 huploaded, Nat.compare_eq_lt.1 hid⟩
  · exact absurd (Nat.compare_eq_eq.1 (Ordering.then_eq_eq.1 heq).2).symm hid

namespace Store

variable {s : Store} {owner : Ident} {dataset : Option Int} {ds : List Dataset} {d e : Dataset}
  {name : String} {size : Int} {place : String × Nat}

/-- Does a listing look at the dataset?  It is the owner's, and it is the one that is
named if one is. -/
structure InScope (s : Store) (owner : Ident) (dataset : Option Int) (d : Dataset) : Prop where
  mem : d ∈ s.datasets
  owned : owner.names d.owner
  named : ∀ id ∈ dataset, id = d.id

/-- Is it the latest dataset in scope that lists the column? -/
structure Latest (s : Store) (owner : Ident) (dataset : Option Int) (name : String)
    (d : Dataset) : Prop where
  scope : s.InScope owner dataset d
  lists : name ∈ d.columns
  others : ∀ e, s.InScope owner dataset e → name ∈ e.columns → e = d ∨ e.IsOlder d

theorem Latest.unique (hd : s.Latest owner dataset name d) (he : s.Latest owner dataset name e) :
    e = d := by
  rcases hd.others e he.scope he.lists with heq | hed
  · exact heq
  · rcases he.others d hd.scope hd.lists with heq | hde
    · exact heq.symm
    · exact absurd hde hed.asymm

/-! ### The datasets of a listing -/

theorem mem_listed_iff (hs : s.Integral) (h : s.listedDatasets owner dataset = .ok ds) :
    d ∈ ds ↔ s.InScope owner dataset d :=
  (mem_listedDatasets_iff hs h d).trans
    ⟨fun h => ⟨h.1, h.2.1, h.2.2⟩, fun h => ⟨h.mem, h.owned, h.named⟩⟩

/-- The datasets of a listing stand with the latest first. -/
theorem pairwise_listed (hs : s.Integral) (h : s.listedDatasets owner dataset = .ok ds) :
    ds.Pairwise fun d e => e.IsOlder d := by
  cases dataset with
  | none =>
    obtain ⟨_, -, h⟩ := Outcome.bind_eq_ok.1 (during_eq_ok.1 h)
    cases h
    have hperm := perm_sortBy (fun d e : Dataset => (d.compare e).isLE)
      (s.datasets.filter fun d => owner.names d.owner)
    have hids := List.pairwise_map.1 ((hperm.map (·.id)).nodup_iff.2
      (hs.datasetIds.sublist (List.filter_sublist.map _)))
    exact (pairwise_isLE_sortBy _).imp₂ (fun d e => Dataset.isOlder_of_compare) hids
  | some id =>
    obtain ⟨found, -, h⟩ := Outcome.bind_eq_ok.1 h
    cases h
    cases found with
    | none => exact List.Pairwise.nil
    | some e => exact List.pairwise_singleton _ _

/-- A listing has its datasets if the store has the numbers that are asked for. -/
theorem Reachable.listedDatasets_eq (hs : s.Reachable) (owner : Ident) (dataset : Option Int) :
    ∃ ds, s.listedDatasets owner dataset =
      if (dataset.toList ++ owner.toList).all fitsWord then .ok ds else .error .overflow := by
  cases dataset with
  | none =>
    refine ⟨sortBy (fun d e : Dataset => (d.compare e).isLE)
      (s.datasets.filter fun d => owner.names d.owner), ?_⟩
    rw [listedDatasets, datasetsOf, statement_of_hasTable (hs.hasTable .datasets)]
    show _ = if owner.toList.all fitsWord then _ else _
    cases owner.toList.all fitsWord <;> rfl
  | some id =>
    refine ⟨(s.datasets.find? fun d => Ident.names (some id) d.id && owner.names d.owner).toList, ?_⟩
    rw [listedDatasets, dataset?, statement_of_hasTable (hs.hasTable .datasets)]
    cases (Option.toList (some id) ++ owner.toList).all fitsWord <;> rfl

/-! ### The first places of the names -/

/-- The columns of datasets, each with its dataset. -/
def placesOf (ds : List Dataset) : List (String × Nat) :=
  ds.flatMap fun d => d.columns.map fun name => (name, d.id)

theorem firstPlaces_eq (ds : List Dataset) : firstPlaces ds = firstsBy Prod.fst (placesOf ds) := by
  rw [firstsBy, groupsBy_eq, List.filterMap_map]
  rw [firstPlaces, groups, List.filterMap_map]
  refine List.filterMap_congr fun k _ => ?_
  show (((placesOf ds).filter fun p => p.1 = k).map (·.2)).head?.map (fun id => (k, id)) =
    ((placesOf ds).filter fun p => p.1 = k).head?
  cases hfound : (placesOf ds).filter fun p => p.1 = k with
  | nil => rfl
  | cons p rest =>
    have hp : p ∈ (placesOf ds).filter fun p => p.1 = k := hfound ▸ List.mem_cons_self
    rw [← of_decide_eq_true (List.mem_filter.1 hp).2]
    rfl

theorem map_fst_firstPlaces (ds : List Dataset) :
    (firstPlaces ds).map (·.1) = distinct (ds.flatMap (·.columns)) := by
  rw [firstPlaces_eq, map_key_firstsBy, placesOf, List.map_flatMap]
  simp only [List.map_map, Function.comp_def, List.map_id']

/-- Among the columns of one dataset a name is found if it is there. -/
theorem find?_columns (d : Dataset) (name : String) :
    (d.columns.map fun column => (column, d.id)).find? (fun p => p.1 = name) =
      if name ∈ d.columns then some (name, d.id) else none := by
  rw [List.find?_map]
  show (d.columns.find? fun column => column = name).map _ = _
  split
  · next hname =>
    let p (column : String) : Bool := column = name
    have hsome : (d.columns.find? p).isSome := List.find?_isSome.2 ⟨name, hname, decide_eq_true rfl⟩
    have hfound : d.columns.find? p = some name := by
      obtain ⟨column, hcolumn⟩ := Option.isSome_iff_exists.1 hsome
      have hp : p column = true := List.find?_some hcolumn
      rw [hcolumn, of_decide_eq_true hp]
    rw [hfound]
    rfl
  · next hname =>
    rw [List.find?_eq_none.2 fun column hcolumn hfound =>
      hname ((of_decide_eq_true hfound : column = name) ▸ hcolumn)]
    rfl

/-- The place of a name is in the first dataset that lists it. -/
theorem find?_placesOf (ds : List Dataset) (name : String) :
    (placesOf ds).find? (fun p => p.1 = name) =
      (ds.find? fun d => name ∈ d.columns).map fun d => (name, d.id) := by
  induction ds with
  | nil => rfl
  | cons d ds ih =>
    rw [placesOf, List.flatMap_cons, List.find?_append, find?_columns, List.find?_cons]
    by_cases hname : name ∈ d.columns
    · rw [if_pos hname, decide_eq_true hname]
      rfl
    · rw [if_neg hname, decide_eq_false hname]
      exact ih

/-- The first dataset of a listing that lists a name is the latest one. -/
theorem latest_of_find? (hs : s.Integral) (h : s.listedDatasets owner dataset = .ok ds)
    (hfind : (ds.find? fun d => name ∈ d.columns) = some d) : s.Latest owner dataset name d := by
  obtain ⟨hlists, before, after, rfl, hbefore⟩ := List.find?_eq_some_iff_append.1 hfind
  have hlater := (List.pairwise_cons.1 (List.pairwise_append.1 (pairwise_listed hs h)).2.1).1
  refine ⟨(mem_listed_iff hs h).1 (List.mem_append_right _ List.mem_cons_self),
    of_decide_eq_true hlists, fun e he hname => ?_⟩
  rcases List.mem_append.1 ((mem_listed_iff hs h).2 he) with he | he
  · have hnot := hbefore e he
    rw [decide_eq_true hname] at hnot
    cases hnot
  · exact (List.mem_cons.1 he).imp_right (hlater e)

/-- A name's place is that of its latest dataset. -/
theorem mem_firstPlaces_iff_latest (hs : s.Integral)
    (h : s.listedDatasets owner dataset = .ok ds) :
    place ∈ firstPlaces ds ↔ ∃ d, s.Latest owner dataset place.1 d ∧ place.2 = d.id := by
  have hlatest : ∀ place ∈ firstPlaces ds,
      ∃ d, s.Latest owner dataset place.1 d ∧ place.2 = d.id := by
    intro place hplace
    have hfound := find?_of_mem_firstsBy (firstPlaces_eq ds ▸ hplace)
    rw [find?_placesOf] at hfound
    obtain ⟨d, hd, hplace⟩ := Option.map_eq_some_iff.1 hfound
    exact ⟨d, latest_of_find? hs h hd, (congrArg Prod.snd hplace).symm⟩
  refine ⟨hlatest place, ?_⟩
  rintro ⟨d, hd, hid⟩
  obtain ⟨other, hother, hname⟩ := List.mem_map.1
    (names_firstPlaces.2 ⟨d, (mem_listed_iff hs h).2 hd.scope, hd.lists⟩)
  obtain ⟨e, he, heid⟩ := hlatest other hother
  rw [hname] at he
  have hsame : place = other := Prod.ext hname.symm (by rw [hid, heid, hd.unique he])
  exact hsame ▸ hother

/-! ### Samples -/

/-- The first values of a dataset's column that are not null, in the order of its
rows. -/
def firstValues (s : Store) (id : Nat) (column : String) (size : Int) : List Cell :=
  (((s.rowsOf id).map (·.fields.cell column)).filter (!·.isNull)).take size.toNat

/-- What meets the one condition of a sample has a value. -/
theorem meeting_present [Reader] {rows : List Row} (hplain : Path.isPlain name)
    (hrows : ∀ r ∈ rows, Native.wellFormedMembers r.fields) :
    meeting [.present name] rows = .ok (rows.filter fun r => r.fields.has name) := by
  induction rows with
  | nil => rfl
  | cons r rows ih =>
    rw [List.forall_mem_cons] at hrows
    rw [meeting, Condition.allHold, Condition.holds_present hplain hrows.1, ih hrows.2,
      List.filter_cons]
    cases r.fields.has name <;> rfl

/-- The rows of a dataset are stored in their order. -/
theorem Reachable.pairwise_rowsOf (hs : s.Reachable) (hd : d ∈ s.datasets) :
    (s.rowsOf d.id).Pairwise fun a b => a.index < b.index := by
  obtain ⟨events, rfl⟩ := hs
  obtain ⟨u, -, h⟩ := described_run events d hd
  have hindex := h.map_index
  refine List.pairwise_map.1 ?_
  rw [hindex]
  exact List.pairwise_lt_range

/-- The first rows that have a value have the first values, and none of them is null. -/
theorem cells_window (s : Store) (id : Nat) (name : String) (hsize : 0 < size) :
    ((window size 0 ((s.rowsOf id).filter fun r => r.fields.has name)).map
      (·.fields.cell name)).filter (!·.isNull) = s.firstValues id name size := by
  have hvalues : s.firstValues id name size =
      (((s.rowsOf id).filter fun r => r.fields.has name).take size.toNat).map
        (·.fields.cell name) := by
    rw [firstValues, List.filter_map, ← List.map_take]
    rfl
  rw [window_of_pos hsize, hvalues]
  refine List.filter_eq_self.2 fun c hc => ?_
  obtain ⟨r, hr, rfl⟩ := List.mem_map.1 hc
  exact (List.mem_filter.1 (List.mem_of_mem_take hr)).2

/-- A sample shows the first values that a column has, as many as are asked for. -/
theorem Reachable.sample_eq [Reader] (hs : s.Reachable) (hd : d ∈ s.datasets)
    (hplain : Path.isPlain name)
    (hrows : ∀ r ∈ s.rowsOf d.id, Native.wellFormedMembers r.fields) (hsize : 0 ≤ size) :
    s.sample (some (d.id : Int)) name (some size) =
      if [(d.id : Int), size].all fitsWord then .ok (s.firstValues d.id name size)
      else .error .overflow := by
  have hnamed : s.rows.filter (fun r => Ident.names (some (d.id : Int)) r.dataset) =
      s.rowsOf d.id :=
    List.filter_congr fun r _ => names_number d.id r.dataset
  have hsorted : sortBy (fun a b : Row => decide (a.index ≤ b.index))
      ((s.rowsOf d.id).filter fun r => r.fields.has name) =
        (s.rowsOf d.id).filter fun r => r.fields.has name :=
    sortBy_of_pairwise (((hs.pairwise_rowsOf hd).filter _).imp fun h => decide_eq_true h.le)
  rw [sample, statement_of_hasTable (hs.hasTable .rows)]
  show during _ ((if [(d.id : Int), size].all fitsWord then _ else _) >>= _) = _
  cases [(d.id : Int), size].all fitsWord with
  | false => rfl
  | true =>
    show during _ (if some size = some 0 then _ else _) = _
    split
    · next hzero =>
      cases hzero
      rfl
    · next hzero =>
      have hpos : 0 < size := lt_of_le_of_ne hsize fun h => hzero (congrArg some h.symm)
      rw [hnamed, meeting_present hplain hrows]
      show Except.ok (List.filter _ (List.map _ (window size 0 (sortBy _ _)))) = _
      rw [hsorted, cells_window s d.id name hpos]
      rfl

/-- Can an owner's columns be looked up in the owner's rows? -/
structure Listable (s : Store) (owner : Ident) : Prop where
  rows : ∀ r ∈ s.rows, owner.names r.owner → Native.wellFormedMembers r.fields
  columns : ∀ d ∈ s.datasets, owner.names d.owner → ∀ name ∈ d.columns, Path.isPlain name

/-- Can a column of a dataset be judged by so many values?  The store has the numbers
that are asked for, and the values are within the doubles. -/
structure Judges (s : Store) (size : Int) (name : String) (d : Dataset) : Prop where
  hasId : fitsWord d.id
  hasSize : fitsWord size
  within : ∀ c ∈ s.firstValues d.id name size, c.isWithin

theorem Reachable.sampledColumn_eq [Reader] (hs : s.Reachable) (h : s.Listable owner)
    (hd : s.InScope owner dataset d) (hname : name ∈ d.columns) (hsize : 0 ≤ size) :
    s.sampledColumn (some size) (name, d.id) =
      if [(d.id : Int), size].all fitsWord then
        (Error.ofConversion (Kind.ofCells (s.firstValues d.id name size))).map fun kind =>
          ⟨name, kind⟩
      else .error .overflow := by
  have hrows : ∀ r ∈ s.rowsOf d.id, Native.wellFormedMembers r.fields := by
    intro r hr
    obtain ⟨hr, hid⟩ := List.mem_filter.1 hr
    refine h.rows r hr ?_
    rw [hs.integral.owner_eq hd.mem hr (of_decide_eq_true hid)]
    exact hd.owned
  have hplain := h.columns d hd.mem hd.owned name hname
  rw [sampledColumn, hs.sample_eq hd.mem hplain hrows hsize]
  cases [(d.id : Int), size].all fitsWord with
  | false => rfl
  | true =>
    show Error.ofConversion (Kind.ofCells (s.firstValues d.id name size)) >>= _ = Except.map _ _
    cases Kind.ofCells (s.firstValues d.id name size) <;> rfl

/-- A column that can be judged has the kind of its first values; any other one has
none. -/
theorem Reachable.sampledColumn_cases [Reader] (hs : s.Reachable) (h : s.Listable owner)
    (hd : s.InScope owner dataset d) (hname : name ∈ d.columns) (hsize : 0 ≤ size) :
    (s.Judges size name d ∧ ∃ kind, Kind.ofCells (s.firstValues d.id name size) = .ok kind ∧
      s.sampledColumn (some size) (name, d.id) = .ok ⟨name, kind⟩) ∨
    (¬ s.Judges size name d ∧ s.sampledColumn (some size) (name, d.id) = .error .overflow) := by
  have hcolumn := hs.sampledColumn_eq h hd hname hsize
  by_cases hfits : [(d.id : Int), size].all fitsWord = true
  · rw [if_pos hfits] at hcolumn
    have hwords : ∀ n ∈ [(d.id : Int), size], fitsWord n := List.all_eq_true.1 hfits
    by_cases hvalues : ∀ c ∈ s.firstValues d.id name size, c.isWithin
    · obtain ⟨kind, hkind⟩ := Kind.exists_ofCells hvalues
      rw [hkind] at hcolumn
      exact .inl ⟨⟨hwords _ List.mem_cons_self, hwords size (by simp), hvalues⟩, kind, hkind, hcolumn⟩
    · rw [Kind.ofCells_eq_error hvalues] at hcolumn
      exact .inr ⟨fun hjudges => hvalues hjudges.within, hcolumn⟩
  · rw [if_neg hfits] at hcolumn
    refine .inr ⟨fun hjudges => hfits (List.all_eq_true.2 ?_), hcolumn⟩
    simpa using And.intro hjudges.hasId hjudges.hasSize

/-- The place of a name can be judged if the latest dataset that lists it can. -/
theorem Reachable.place_cases [Reader] (hs : s.Reachable) (h : s.Listable owner)
    (hds : s.listedDatasets owner dataset = .ok ds) (hsize : 0 ≤ size)
    (hplace : place ∈ firstPlaces ds) :
    ∃ d, s.Latest owner dataset place.1 d ∧
      ((s.Judges size place.1 d ∧ ∃ kind,
        Kind.ofCells (s.firstValues d.id place.1 size) = .ok kind ∧
          s.sampledColumn (some size) place = .ok ⟨place.1, kind⟩) ∨
        (¬ s.Judges size place.1 d ∧ s.sampledColumn (some size) place = .error .overflow)) := by
  obtain ⟨d, hd, hid⟩ := (mem_firstPlaces_iff_latest hs.integral hds).1 hplace
  have hcases := hs.sampledColumn_cases h hd.scope hd.lists hsize
  rw [show (place.1, d.id) = place from Prod.ext rfl hid.symm] at hcases
  exact ⟨d, hd, hcases⟩

/-! ### Lists of columns -/

/-- Each column of a list is that of a place. -/
theorem columns_eq_ok [Reader] {sampleSize : Option Int} {cs : List Column} :
    s.columns owner dataset sampleSize = .ok cs ↔
      ∃ ds found, s.listedDatasets owner dataset = .ok ds ∧
        List.Forall₂ (fun place c => s.sampledColumn sampleSize place = .ok c) (firstPlaces ds)
          found ∧
        cs = sortBy (fun a b => decide (a.name ≤ b.name)) found := by
  constructor
  · intro h
    obtain ⟨ds, hds, h⟩ := Outcome.bind_eq_ok.1 h
    obtain ⟨found, hfound, h⟩ := Outcome.bind_eq_ok.1 h
    exact ⟨ds, found, hds, Outcome.mapM_eq_ok.1 hfound, (Except.ok.inj h).symm⟩
  · rintro ⟨ds, found, hds, hfound, rfl⟩
    exact Outcome.bind_eq_ok.2 ⟨ds, hds,
      Outcome.bind_eq_ok.2 ⟨found, Outcome.mapM_eq_ok.2 hfound, rfl⟩⟩

theorem name_of_sampledColumn [Reader] {sampleSize : Option Int} {c : Column}
    (h : s.sampledColumn sampleSize place = .ok c) : c.name = place.1 := by
  obtain ⟨cells, -, h⟩ := Outcome.bind_eq_ok.1 h
  obtain ⟨kind, -, h⟩ := Outcome.bind_eq_ok.1 h
  cases h
  rfl

/-- The names of a list of columns are those of the datasets, each once. -/
theorem perm_names_columns [Reader] {sampleSize : Option Int} {cs : List Column}
    (hds : s.listedDatasets owner dataset = .ok ds)
    (h : s.columns owner dataset sampleSize = .ok cs) :
    (cs.map (·.name)).Perm (distinct (ds.flatMap (·.columns))) := by
  obtain ⟨ds', found, hds', hfound, rfl⟩ := columns_eq_ok.1 h
  cases hds.symm.trans hds'
  have hnames : found.map (·.name) = (firstPlaces ds).map (·.1) :=
    Outcome.map_of_mapM (Outcome.mapM_eq_ok.2 hfound) fun _ _ => name_of_sampledColumn
  rw [← map_fst_firstPlaces, ← hnames]
  exact (perm_sortBy _ found).map _

/-- A list of columns is in strict order, since no name is there twice. -/
theorem pairwise_columns [Reader] {sampleSize : Option Int} {cs : List Column}
    (h : s.columns owner dataset sampleSize = .ok cs) :
    cs.Pairwise fun a b => a.name < b.name := by
  obtain ⟨ds, found, hds, -, hcs⟩ := columns_eq_ok.1 h
  have hnodup := (perm_names_columns hds h).nodup_iff.2 (nodup_distinct _)
  have hsorted : cs.Pairwise fun a b => a.name ≤ b.name := by
    rw [hcs]
    refine (pairwise_sortBy (fun a b => ?_) (fun a b c => ?_) found).imp of_decide_eq_true
    · simpa using le_total a.name b.name
    · simpa using le_trans
  exact hsorted.imp₂ (fun a b => lt_of_le_of_ne) (List.pairwise_map.1 hnodup)

/-- Are the columns of a listing judged, for which the store is asked for the numbers? -/
structure ListsColumns (s : Store) (owner : Ident) (dataset : Option Int) (size : Int) : Prop where
  hasDataset : Ident.Fits dataset
  hasOwner : owner.Fits
  judges : ∀ name d, s.Latest owner dataset name d → s.Judges size name d

/-- There is a list of columns where all that it looks at can be judged, and else a
number is too large. -/
theorem Reachable.columns_cases [Reader] (hs : s.Reachable) (h : s.Listable owner)
    (dataset : Option Int) (hsize : 0 ≤ size) :
    (s.ListsColumns owner dataset size ∧ ∃ cs, s.columns owner dataset (some size) = .ok cs) ∨
    (¬ s.ListsColumns owner dataset size ∧ s.columns owner dataset (some size) = .error .overflow) := by
  obtain ⟨ds, hds⟩ := hs.listedDatasets_eq owner dataset
  have hfits := all_fitsWord_iff dataset owner
  cases hall : (dataset.toList ++ owner.toList).all fitsWord with
  | false =>
    rw [hall] at hds hfits
    refine .inr ⟨fun hlists => absurd (hfits.2 ⟨hlists.hasDataset, hlists.hasOwner⟩) nofun, ?_⟩
    rw [columns, hds]
    rfl
  | true =>
    rw [hall] at hds hfits
    replace hds : s.listedDatasets owner dataset = .ok ds := hds
    by_cases hjudges : ∀ name d, s.Latest owner dataset name d → s.Judges size name d
    · refine .inl ⟨⟨(hfits.1 rfl).1, (hfits.1 rfl).2, hjudges⟩, ?_⟩
      obtain ⟨found, hfound⟩ := Outcome.exists_mapM_eq_ok fun place hplace => by
        obtain ⟨d, hd, ⟨-, kind, -, hcolumn⟩ | hnot⟩ := hs.place_cases h hds hsize hplace
        · exact ⟨_, hcolumn⟩
        · exact absurd (hjudges _ d hd) hnot.1
      exact ⟨_, columns_eq_ok.2 ⟨ds, found, hds, Outcome.mapM_eq_ok.1 hfound, rfl⟩⟩
    · refine .inr ⟨fun hlists => hjudges hlists.judges, ?_⟩
      obtain ⟨name, d, hd, hnot⟩ : ∃ name d, s.Latest owner dataset name d ∧
          ¬ s.Judges size name d := by simpa using hjudges
      have hplace : (name, d.id) ∈ firstPlaces ds :=
        (mem_firstPlaces_iff_latest hs.integral hds).2 ⟨d, hd, rfl⟩
      have hfail : s.sampledColumn (some size) (name, d.id) = .error .overflow := by
        rcases hs.sampledColumn_cases h hd.scope hd.lists hsize with hjudged | hcolumn
        · exact absurd hjudged.1 hnot
        · exact hcolumn.2
      -- the places in front of it have columns or fail alike
      have hfound := Outcome.mapM_eq_error_of_mem (fun place hplace => by
        obtain ⟨_, -, ⟨-, kind, -, hcolumn⟩ | hcolumn⟩ := hs.place_cases h hds hsize hplace
        · exact .inl ⟨_, hcolumn⟩
        · exact .inr hcolumn.2) hplace hfail
      rw [columns, hds]
      show (firstPlaces ds).mapM (s.sampledColumn (some size)) >>= _ = _
      rw [hfound]
      rfl

theorem Reachable.exists_columns_iff [Reader] (hs : s.Reachable) (h : s.Listable owner)
    (dataset : Option Int) (hsize : 0 ≤ size) :
    (∃ cs, s.columns owner dataset (some size) = .ok cs) ↔ s.ListsColumns owner dataset size := by
  rcases hs.columns_cases h dataset hsize with ⟨hlists, hcs⟩ | ⟨hnot, hfail⟩
  · exact ⟨fun _ => hlists, fun _ => hcs⟩
  · refine ⟨fun ⟨cs, hcs⟩ => ?_, fun hlists => absurd hlists hnot⟩
    cases hfail.symm.trans hcs

/-- Each column of a list has the kind of the first values of its latest dataset. -/
theorem Reachable.kind_columns [Reader] (hs : s.Reachable) (h : s.Listable owner) (hsize : 0 ≤ size)
    {cs : List Column} (hcs : s.columns owner dataset (some size) = .ok cs) {c : Column}
    (hc : c ∈ cs) :
    ∃ d, s.Latest owner dataset c.name d ∧
      Kind.ofCells (s.firstValues d.id c.name size) = .ok c.kind := by
  obtain ⟨ds, found, hds, hfound, rfl⟩ := columns_eq_ok.1 hcs
  obtain ⟨place, hplace, hcolumn⟩ :=
    Outcome.exists_of_forall₂ hfound ((perm_sortBy _ found).mem_iff.1 hc)
  obtain ⟨d, hd, ⟨-, kind, hkind, hok⟩ | ⟨-, hfail⟩⟩ := hs.place_cases h hds hsize hplace
  · cases hok.symm.trans hcolumn
    exact ⟨d, hd, hkind⟩
  · cases hfail.symm.trans hcolumn

/-- The columns of an owner's datasets, or of one of them.  There is a list of them
exactly where the store has the numbers that are asked for and all that is sampled is
within the doubles; what else may happen is that a number is too large.  The list has
each name that a dataset in scope lists, once and in strict order, with the kind of the
first values that are not null, in the order of the rows, of the latest dataset in scope
that lists it. -/
theorem columns_typed [Reader] (hs : s.Reachable) (h : s.Listable owner) (dataset : Option Int)
    (hsize : 0 ≤ size) :
    ((∃ cs, s.columns owner dataset (some size) = .ok cs) ↔ s.ListsColumns owner dataset size) ∧
    (∀ e, s.columns owner dataset (some size) = .error e → e = .overflow) ∧
    ∀ cs, s.columns owner dataset (some size) = .ok cs →
      cs.Pairwise (fun a b => a.name < b.name) ∧
      (∀ name, name ∈ cs.map (·.name) ↔ ∃ d, s.InScope owner dataset d ∧ name ∈ d.columns) ∧
      ∀ c ∈ cs, ∃ d, s.Latest owner dataset c.name d ∧
        (s.rowsOf d.id).Pairwise (fun a b => a.index < b.index) ∧
        Kind.ofCells (s.firstValues d.id c.name size) = .ok c.kind := by
  refine ⟨hs.exists_columns_iff h dataset hsize, fun e he => ?_, fun cs hcs =>
    ⟨pairwise_columns hcs, fun name => ?_, fun c hc => ?_⟩⟩
  · rcases hs.columns_cases h dataset hsize with ⟨-, cs, hcs⟩ | ⟨-, hfail⟩
    · cases hcs.symm.trans he
    · exact (Except.error.inj (hfail.symm.trans he)).symm
  · obtain ⟨ds, -, hds, -⟩ := columns_eq_ok.1 hcs
    rw [(perm_names_columns hds hcs).mem_iff, mem_distinct, List.mem_flatMap]
    simp only [mem_listed_iff hs.integral hds]
  · obtain ⟨d, hd, hkind⟩ := hs.kind_columns h hsize hcs hc
    exact ⟨d, hd, hs.pairwise_rowsOf hd.scope.mem, hkind⟩

/-- Of two datasets the later one shows the kind of the column that both list, by its
first value that is not null. -/
theorem columns_typed_two :
    let old : Upload := ⟨["b", "a"].map .text, [[.null, .text "x"]], false⟩
    let new : Upload := ⟨["a"].map .text, [[.null], [.bool true], [.text "x"]], false⟩
    let s := empty.run
      [.ingest (some 1) (some "old") none old, .ingest (some 1) (some "new") none new]
    s.Reachable ∧ s.Listable (some 1) ∧
      ∃ cs, s.columns (some 1) none (some 1) = .ok cs ∧
        cs = [⟨"a", .number⟩, ⟨"b", .text⟩] ∧ cs.Pairwise (fun a b => a.name < b.name) ∧
        ∃ d, s.Latest (some 1) none "a" d ∧
          Kind.ofCells (s.firstValues d.id "a" 1) = .ok .number := by
  intro old new s
  have hs : s.Reachable := ⟨_, rfl⟩
  have hlistable : s.Listable (some 1) := by
    refine ⟨?_, ?_⟩
    · decide +kernel
    · decide +kernel
  obtain ⟨cs, hcs, hlist⟩ : ∃ cs, s.columns (some 1) none (some 1) = .ok cs ∧
      cs = [⟨"a", .number⟩, ⟨"b", .text⟩] := Outcome.of_toOption_map (f := id) (by decide +kernel)
  obtain ⟨-, -, hall⟩ := columns_typed hs hlistable none (show (0 : Int) ≤ 1 by decide)
  obtain ⟨hsorted, -, hkinds⟩ := hall cs hcs
  obtain ⟨d, hd, -, hkind⟩ := hkinds ⟨"a", .number⟩ (hlist ▸ List.mem_cons_self)
  exact ⟨hs, hlistable, cs, hcs, hlist, hsorted, d, hd, hkind⟩

/-- A column of numbers has no kind if one of them is beyond the doubles, and the owner
has no list of columns. -/
theorem large_whole_unlisted :
    let numbers : List Int := [1, 2, 3, 4, 5, 10 ^ 400]
    let u : Upload := ⟨[.text "a"], numbers.map fun n => [.number (.whole n)], false⟩
    let s := empty.run [.ingest (some 1) (some "t") none u]
    s.Reachable ∧ s.Listable (some 1) ∧ (∃ d ∈ s.datasets, d.owner = 1 ∧ "a" ∈ d.columns) ∧
      s.columns (some 1) none (some 10) = .error .overflow := by
  intro numbers u s
  have hs : s.Reachable := ⟨_, rfl⟩
  have hlistable : s.Listable (some 1) := by
    refine ⟨?_, ?_⟩
    · decide +kernel
    · decide +kernel
  refine ⟨hs, hlistable, by decide +kernel, ?_⟩
  rcases hs.columns_cases hlistable none (show (0 : Int) ≤ 10 by decide) with ⟨-, cs, hcs⟩ | ⟨-, hfail⟩
  · have hnone : (s.columns (some 1) none (some 10)).isOk = false := by decide +kernel
    rw [show s.columns (some 1) none (some 10) = .ok cs from hcs] at hnone
    cases hnone
  · exact hfail

end Store

end Gridbook
