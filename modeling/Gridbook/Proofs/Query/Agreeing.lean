/-
Gridbook/Proofs/Query/Agreeing.lean

What an owner is told in several places.  A dashboard counts the owner's rows and
datasets in their tables, a row count and a page select the rows by a statement of their
own, and the count of one dataset selects by its number too.  That the counts of the
datasets add up to all the rows is not in the statements: every row belongs to a dataset
of its owner, and to no other (`sum_rowsOf`).

The datasets themselves are told by what has been answered: a table that was stored for
the owner is one more, and one that the owner has deleted is one less (`held_eq`).

Main statement: the numbers agree after any events, wherever they are given
(`views_agree`).
-/
import Gridbook.Proofs.Query.Listing
import Gridbook.Proofs.Query.Returning

namespace Gridbook

/-- Members with one of several numbers, counted number by number. -/
theorem sum_length_filter {α : Type} (ref : α → Nat) (as : List α) {ids : List Nat}
    (h : ids.Nodup) :
    (ids.map fun id => (as.filter fun a => ref a = id).length).sum =
      (as.filter fun a => ref a ∈ ids).length := by
  induction ids with
  | nil =>
    rw [List.filter_eq_nil_iff.2 fun a _ hmem => List.not_mem_nil (of_decide_eq_true hmem)]
    rfl
  | cons id ids ih =>
    obtain ⟨hid, hids⟩ := List.nodup_cons.1 h
    rw [List.map_cons, List.sum_cons, ih hids]
    clear ih
    induction as with
    | nil => rfl
    | cons a as ih =>
      -- a member counts under its own number, which stands in one place only
      by_cases ha : ref a = id
      · have hnot : ref a ∉ ids := ha ▸ hid
        simp [ha, hid] at hnot ih ⊢
        omega
      · by_cases hmem : ref a ∈ ids
        · simp [ha, hmem] at ih ⊢
          omega
        · simp [ha, hmem] at ih ⊢
          exact ih

namespace Store

variable {s s' : Store} {owner : Ident} {ds : List Dataset}

/-! ### What an owner holds -/

/-- The datasets that an owner holds after an event, if the store answers it: a table of
the owner's that is stored is one more, and what the owner deletes is held no more. -/
def heldAfter (owner : Ident) (s : Store) (held : List Dataset) : Event → List Dataset
  | .ingest other name filename u =>
    match (s.ingest other name filename u).1 with
    | .ok d => if other = owner then held ++ [d] else held
    | .error _ => held
  | .deleteDataset other dataset =>
    match (s.deleteDataset other dataset).1 with
    | .ok () => if other = owner then held.filter fun d => !dataset.names d.id else held
    | .error _ => held
  | _ => held

/-- The datasets that an owner has stored and not deleted. -/
def held (owner : Ident) (events : List Event) : List Dataset :=
  (events.foldl (fun p e => (p.1.after e, heldAfter owner p.1 p.2 e)) (empty, [])).2

/-- What is neither stored nor deleted leaves the datasets as they are. -/
theorem datasets_change {e : Event} (h : Change s e s')
    (hingest : ∀ owner name filename u, e ≠ .ingest owner name filename u)
    (hdelete : ∀ owner dataset, e ≠ .deleteDataset owner dataset) : s'.datasets = s.datasets := by
  cases h with
  | nothing => rfl
  | ingested => exact absurd rfl (hingest _ _ _ _)
  | deleted owner dataset => exact absurd rfl (hdelete owner dataset)
  | saved => rfl
  | savedDeleted => rfl
  | clockSet => rfl

/-- An owner's datasets without the one of a number are those that it does not name. -/
theorem only_withoutDataset (s : Store) (owner : Ident) (n : Nat) :
    ((s.withoutDataset n).only owner).datasets =
      (s.only owner).datasets.filter fun d => !Ident.names (some (n : Int)) d.id := by
  show (s.datasets.filter fun d => d.id ≠ n).filter (fun d => owner.names d.owner) =
    (s.datasets.filter fun d => owner.names d.owner).filter _
  rw [List.filter_filter, List.filter_filter]
  refine List.filter_congr fun d _ => ?_
  rw [names_number, decide_not, Bool.and_comm]

/-- What the answers tell is what the store has. -/
theorem heldAfter_eq (hs : s.Reachable) (owner : Ident) (e : Event) :
    heldAfter owner s (s.only owner).datasets e = ((s.after e).only owner).datasets := by
  have hothers : ∀ {other}, e.caller = some other → other ≠ owner →
      (s.only owner).datasets = ((s.after e).only owner).datasets := fun hcaller hne =>
    (SameFor.change (change_after s e) fun h => hne (Option.some.inj (hcaller.symm.trans h))).datasets
  have hkept : (s.after e).datasets = s.datasets →
      (s.only owner).datasets = ((s.after e).only owner).datasets := fun h =>
    congrArg (List.filter fun d : Dataset => owner.names d.owner) h.symm
  cases e with
  | ingest other name filename u =>
    rw [heldAfter]
    rcases hingest : s.ingest other name filename u with ⟨x | d, s'⟩
    · refine hkept ?_
      rw [after, hingest, commit_error hingest]
    · dsimp only
      split
      · next hsame =>
        obtain ⟨rfl, -, fields, -, heq⟩ := ingest_eq_ok hingest
        have hnew : [d].filter (fun d => owner.names d.owner) = [d] := by
          refine List.filter_eq_self.2 fun e he => ?_
          rw [List.mem_singleton.1 he]
          exact names_iff.2 hsame.symm
        rw [after, hingest, heq]
        show s.datasets.filter (fun d => owner.names d.owner) ++ [d] =
          (s.datasets ++ [d]).filter fun d => owner.names d.owner
        rw [List.filter_append, hnew]
      · next hne => exact hothers rfl hne
  | deleteDataset other dataset =>
    rw [heldAfter]
    rcases hdelete : s.deleteDataset other dataset with ⟨x | _, s'⟩
    · refine hkept ?_
      rw [after, hdelete, hs.integral.deleteDataset_error hdelete]
    · dsimp only
      split
      · next hsame =>
        obtain ⟨-, n, ⟨d, -, -, rfl, -⟩, rfl⟩ :=
          ((hs.deleteDataset_exactly other dataset).ok_iff s').1 hdelete
        rw [after, hdelete]
        exact (only_withoutDataset s owner n).symm
      · next hne => exact hothers rfl hne
  | save => exact hkept (datasets_change (change_after s _) (by simp) (by simp))
  | deleteSaved => exact hkept (datasets_change (change_after s _) (by simp) (by simp))
  | setClock => rfl

theorem held_eq (owner : Ident) (events : List Event) :
    held owner events = ((empty.run events).only owner).datasets := by
  have hfold : events.foldl (fun p e => (p.1.after e, heldAfter owner p.1 p.2 e)) (empty, []) =
      (empty.run events, ((empty.run events).only owner).datasets) := by
    induction events using List.reverseRecOn with
    | nil => rfl
    | append_singleton events e ih =>
      have hrun : empty.run (events ++ [e]) = (empty.run events).after e := by
        rw [run, List.foldl_append]
        rfl
      rw [List.foldl_append, ih, hrun]
      exact Prod.ext rfl (heldAfter_eq ⟨events, rfl⟩ owner e)
  rw [held, hfold]

/-! ### Counts -/

/-- Where nothing is asked of them, rows are counted by their owner, and by their dataset
if one is named. -/
theorem Reachable.rowCount_all [Reader] (hs : s.Reachable) (owner : Ident) (dataset : Option Int) :
    s.rowCount ⟨owner, dataset, [], []⟩ =
      if (owner.toList ++ dataset.toList).all fitsWord then
        .ok (s.rows.filter (Selection.covers ⟨owner, dataset, [], []⟩)).length
      else .error .overflow := by
  have hconds : s.conditions ⟨owner, dataset, [], []⟩ [] =
      if (owner.toList ++ dataset.toList).all fitsWord then .ok [] else .error .overflow := by
    show s.statement [.rows] (owner.toList ++ dataset.toList) >>= _ = _
    rw [statement_of_hasTable (hs.hasTable .rows)]
    cases (owner.toList ++ dataset.toList).all fitsWord <;> rfl
  show during .countRows (s.conditions ⟨owner, dataset, [], []⟩ [] >>= fun conds =>
    s.selected ⟨owner, dataset, [], []⟩ conds >>= fun found => .ok found.length) = _
  rw [hconds]
  cases (owner.toList ++ dataset.toList).all fitsWord with
  | false => rfl
  | true =>
    show during .countRows (meeting [] _ >>= _) = _
    rw [meeting_nil]
    rfl

/-- All of an owner's rows can be counted if the store has the owner's number. -/
theorem Reachable.rowCount_owner [Reader] (hs : s.Reachable) (howner : owner.Fits) :
    s.rowCount ⟨owner, none, [], []⟩ = .ok (s.only owner).rows.length := by
  rw [hs.rowCount_all, if_pos ((all_fitsWord_iff owner none).2 ⟨howner, nofun⟩)]
  refine congrArg (fun rows : List Row => Except.ok rows.length) ?_
  exact List.filter_congr fun r _ => Bool.and_true _

/-- A dashboard tells the sizes of tables and the latest time in one, if the store has the
owner's number. -/
theorem Reachable.dashboard_cases (hs : s.Reachable) (owner : Ident) :
    (owner.Fits ∧ ∃ ds, s.datasetsOf owner = .ok ds ∧ s.dashboard owner =
      .ok ⟨(s.only owner).rows.length, ds.length, ((s.only owner).rows.map (·.created)).max?,
        (distinct (ds.flatMap (·.columns))).length⟩) ∨
    (¬ owner.Fits ∧ s.dashboard owner = .error .overflow) := by
  obtain ⟨ds, hds⟩ := hs.listedDatasets_eq owner none
  replace hds : s.datasetsOf owner =
    if owner.toList.all fitsWord then .ok ds else .error .overflow := hds
  have hfits : owner.toList.all fitsWord = true ↔ owner.Fits :=
    (all_fitsWord_iff none owner).trans ⟨fun h => h.2, fun h => ⟨nofun, h⟩⟩
  rw [dashboard, rowStats, statement_of_hasTable (hs.hasTable .rows)]
  by_cases howner : owner.Fits
  · rw [if_pos (hfits.2 howner)] at hds ⊢
    rw [hds]
    exact .inl ⟨howner, ds, rfl, rfl⟩
  · rw [if_neg (mt hfits.1 howner)] at hds ⊢
    rw [hds]
    exact .inr ⟨howner, rfl⟩

/-- The datasets that are listed are those that the owner has. -/
theorem perm_datasetsOf (h : s.datasetsOf owner = .ok ds) : ds.Perm (s.only owner).datasets := by
  obtain ⟨_, -, h⟩ := Outcome.bind_eq_ok.1 (during_eq_ok.1 h)
  cases h
  exact perm_sortBy _ _

/-- What is counted for a dataset are the owner's rows with its number. -/
theorem filter_covers (s : Store) (owner : Ident) (id : Nat) :
    s.rows.filter (Selection.covers ⟨owner, some (id : Int), [], []⟩) =
      (s.only owner).rows.filter fun r => r.dataset = id := by
  show _ = (s.rows.filter fun r => owner.names r.owner).filter _
  rw [List.filter_filter]
  refine List.filter_congr fun r _ => ?_
  have hnumber : ((id : Int) == (r.dataset : Int)) = decide (r.dataset = id) :=
    names_number id r.dataset
  show (owner.names r.owner && ((id : Int) == (r.dataset : Int))) = _
  rw [hnumber, Bool.and_comm]

/-- All of an owner's rows are rows of the owner's datasets, each of one of them. -/
theorem sum_rowsOf (hs : s.Integral) (hds : ds.Perm (s.only owner).datasets) :
    (ds.map fun d => ((s.only owner).rows.filter fun r => r.dataset = d.id).length).sum =
      (s.only owner).rows.length := by
  have hids : (ds.map (·.id)).Nodup :=
    (hds.map _).nodup_iff.2 (hs.datasetIds.sublist (List.filter_sublist.map _))
  have hall : (s.only owner).rows.filter (fun r => r.dataset ∈ ds.map (·.id)) =
      (s.only owner).rows := by
    refine List.filter_eq_self.2 fun r hr => decide_eq_true ?_
    obtain ⟨hr, hown⟩ := List.mem_filter.1 hr
    obtain ⟨d, hd, hdataset, howner⟩ := hs.rowOwned r hr
    rw [← hdataset]
    exact List.mem_map_of_mem (hds.mem_iff.2 (List.mem_filter.2 ⟨hd, by rw [howner]; exact hown⟩))
  rw [← congrArg List.length hall, ← sum_length_filter Row.dataset _ hids, List.map_map]
  rfl

/-- The rows of one dataset after another can be counted where the store has their
numbers, and then the counts add up to all the rows. -/
theorem Reachable.rowCounts [Reader] (hs : s.Reachable) (howner : owner.Fits)
    (hds : ds.Perm (s.only owner).datasets) :
    ((∃ ns, ds.mapM (fun d => s.rowCount ⟨owner, some (d.id : Int), [], []⟩) = .ok ns) ↔
      ∀ d ∈ ds, fitsWord d.id) ∧
    ∀ ns, ds.mapM (fun d => s.rowCount ⟨owner, some (d.id : Int), [], []⟩) = .ok ns →
      ns.sum = (s.only owner).rows.length := by
  have hcount : ∀ (id : Nat) n, s.rowCount ⟨owner, some (id : Int), [], []⟩ = .ok n ↔
      fitsWord id ∧ n = ((s.only owner).rows.filter fun r => r.dataset = id).length := by
    intro id n
    have hfits := all_fitsWord_iff owner (some (id : Int))
    have hword : Ident.Fits (some (id : Int)) ↔ fitsWord id :=
      ⟨fun h => h id rfl, fun h n hn => Option.some.inj hn ▸ h⟩
    rw [hs.rowCount_all, filter_covers]
    split
    · next hall =>
      exact ⟨fun h => ⟨hword.1 (hfits.1 hall).2, (Except.ok.inj h).symm⟩,
        fun h => congrArg Except.ok h.2.symm⟩
    · next hnot => exact ⟨nofun, fun h => absurd (hfits.2 ⟨howner, hword.2 h.1⟩) hnot⟩
  refine ⟨⟨?_, fun hall => ?_⟩, fun ns hns => ?_⟩
  · rintro ⟨ns, hns⟩ d hd
    obtain ⟨n, -, hn⟩ := Outcome.ok_of_mem_mapM hns hd
    exact ((hcount d.id n).1 hn).1
  · exact Outcome.exists_mapM_eq_ok fun d hd => ⟨_, (hcount d.id _).2 ⟨hall d hd, rfl⟩⟩
  · rw [← sum_rowsOf hs.integral hds, ← List.map_id ns]
    exact congrArg List.sum (Outcome.map_of_mapM hns fun d n hn => ((hcount d.id n).1 hn).2)

/-! ### Pages -/

/-- Is it a request for a page of all of an owner's rows, in an order by a plain column
or by none, on a page that there can be? -/
structure AsksForAll (r : RowRequest) (order : Order) : Prop where
  unfiltered : r.filters = []
  sorted : Sorting.order (requestedSort r) = .ok order
  sound : order.Sound
  page : 1 ≤ r.page
  limit : 1 ≤ r.limit
  fits : r.limit < 2 ^ 63
  place : (r.page - 1) * r.limit < 2 ^ 63

/-- A page of all of an owner's rows tells how many they are. -/
theorem total_ownerData [Reader] {r : RowRequest} {q : Page} {n : Nat} (hr : r.filters = [])
    (hcount : s.rowCount ⟨owner, none, [], []⟩ = .ok n) (h : s.ownerData owner r = .ok q) :
    q.total = n := by
  rw [ownerData, hr] at h
  obtain ⟨_, _, _, valid, _, total, -, -, -, -, -, hvalid, hfetch, rfl⟩ := page_eq_ok.1 h
  obtain ⟨_, _, _, _, -, -, -, -, htotal, -⟩ := fetch_eq_ok.1 hfetch
  obtain ⟨valid', hvalid', hn⟩ := rowCount_eq_ok.1 hcount
  cases hvalid.symm.trans hvalid'
  exact congrArg Nat.cast (Except.ok.inj (htotal.symm.trans hn))

theorem Reachable.exists_ownerData [Reader] (hs : s.Reachable) (h : s.Listable owner)
    (howner : owner.Fits) {r : RowRequest} {order : Order} (hr : AsksForAll r order) :
    ∃ q, s.ownerData owner r = .ok q := by
  have hsound : Selection.Sound ⟨owner, none, [], []⟩ := ⟨howner, nofun, nofun, nofun⟩
  have hlegible : s.Legible ⟨owner, none, [], []⟩ := by
    refine ⟨hs.hasTable .rows, fun row hrow hcovers => h.rows row hrow ?_⟩
    exact (Bool.and_eq_true_iff.1 hcovers).1
  obtain ⟨valid, rows, hvalid, hfinds⟩ :=
    exists_finds hsound hr.sound hlegible hs.integral.rowIds
  rw [ownerData, hr.unfiltered]
  exact ⟨_, page_of_finds hvalid hr.sorted hfinds hr.page hr.limit hr.fits hr.place⟩

/-! ### Views -/

/-- A list of columns has as many as there are names in the owner's datasets. -/
theorem length_columns [Reader] {sampleSize : Option Int} {cs : List Column}
    (hds : s.datasetsOf owner = .ok ds) (h : s.columns owner none sampleSize = .ok cs) :
    cs.length = (distinct (ds.flatMap (·.columns))).length := by
  have hlisted : s.listedDatasets owner none = .ok ds := hds
  rw [← List.length_map Column.name]
  exact (perm_names_columns hlisted h).length_eq

/-- After any events there is a dashboard for an owner whose number the store has, and its
numbers are those that are given elsewhere.  The rows are those that are counted, those
that a page without filters tells of, and those of the datasets together; the columns
are as many as any list of them has, and there is a list where all that is sampled can be
judged; the datasets are those that the owner has stored and not deleted. -/
theorem views_agree [Reader] (events : List Event) (owner : Ident)
    (h : (empty.run events).Listable owner) :
    let s := empty.run events
    (owner.Fits ∧ (∃ v, s.dashboard owner = .ok v) ∨
      ¬ owner.Fits ∧ s.dashboard owner = .error .overflow) ∧
    ∀ v, s.dashboard owner = .ok v →
      s.rowCount ⟨owner, none, [], []⟩ = .ok v.rows ∧
      (∀ r order, AsksForAll r order → ∃ q, s.ownerData owner r = .ok q) ∧
      (∀ r q, r.filters = [] → s.ownerData owner r = .ok q → q.total = v.rows) ∧
      (∃ ds, s.datasetsOf owner = .ok ds ∧
        ((∃ ns, ds.mapM (fun d => s.rowCount ⟨owner, some (d.id : Int), [], []⟩) = .ok ns) ↔
          ∀ d ∈ ds, fitsWord d.id) ∧
        ∀ ns, ds.mapM (fun d => s.rowCount ⟨owner, some (d.id : Int), [], []⟩) = .ok ns →
          ns.sum = v.rows) ∧
      (∀ size, 0 ≤ size → ((∃ cs, s.columns owner none (some size) = .ok cs) ↔
        s.ListsColumns owner none size)) ∧
      (∀ size cs, s.columns owner none size = .ok cs → cs.length = v.columns) ∧
      v.datasets = (held owner events).length := by
  intro s
  have hs : s.Reachable := ⟨events, rfl⟩
  rcases hs.dashboard_cases owner with ⟨howner, ds, hds, hdashboard⟩ | ⟨hnot, hdashboard⟩
  · refine ⟨.inl ⟨howner, _, hdashboard⟩, fun v hv => ?_⟩
    cases hdashboard.symm.trans hv
    have hcount := hs.rowCount_owner howner
    have hperm := perm_datasetsOf hds
    refine ⟨hcount, fun r order => hs.exists_ownerData h howner,
      fun r q hr => total_ownerData hr hcount, ⟨ds, hds, hs.rowCounts howner hperm⟩,
      fun size hsize => hs.exists_columns_iff h none hsize, fun size cs => length_columns hds, ?_⟩
    rw [held_eq]
    exact hperm.length_eq
  · refine ⟨.inr ⟨hnot, hdashboard⟩, fun v hv => ?_⟩
    cases hdashboard.symm.trans hv

/-- Of three datasets one is another owner's and one is deleted. -/
theorem views_agree_one :
    let u : Upload := ⟨["a", "b"].map .text, [[.bool true, .null], [.null, .text "x"]], false⟩
    let events : List Event := [.ingest (some 1) (some "t") none u,
      .ingest (some 2) (some "u") none u, .deleteDataset (some 1) (some 2),
      .ingest (some 1) (some "v") none u, .deleteDataset (some 1) (some 1)]
    let s := empty.run events
    s.Listable (some 1) ∧ s.dashboard (some 1) = .ok ⟨2, 1, some (empty.clock + 8), 2⟩ ∧
      s.rowCount ⟨some 1, none, [], []⟩ = .ok 2 ∧ (held (some 1) events).length = 1 ∧
      ∀ cs, s.columns (some 1) none none = .ok cs → cs.length = 2 := by
  intro u events s
  have hlistable : s.Listable (some 1) := by
    refine ⟨?_, ?_⟩
    · decide +kernel
    · decide +kernel
  obtain ⟨v, hv, hnumbers⟩ : ∃ v, s.dashboard (some 1) = .ok v ∧
      v = ⟨2, 1, some (empty.clock + 8), 2⟩ :=
    Outcome.of_toOption_map (f := id) (by decide +kernel)
  obtain ⟨hcount, -, -, -, -, hcolumns, hheld⟩ := (views_agree events (some 1) hlistable).2 v hv
  rw [hnumbers] at hv hcount hcolumns hheld
  exact ⟨hlistable, hv, hcount, hheld.symm, hcolumns none⟩

/-- The dashboard counts the column of a whole number beyond the doubles, and there is no
list of columns that has it. -/
theorem large_whole_counted_unlisted :
    let u : Upload := ⟨[.text "a"], [[.number (.whole (10 ^ 400))]], false⟩
    let s := empty.run [.ingest (some 1) (some "t") none u]
    s.Reachable ∧ s.Listable (some 1) ∧
      s.dashboard (some 1) = .ok ⟨1, 1, some (empty.clock + 1), 1⟩ ∧
      ∀ cs, s.columns (some 1) none (some defaultSampleSize) ≠ .ok cs := by
  intro u s
  have hlistable : s.Listable (some 1) := by
    refine ⟨?_, ?_⟩
    · decide +kernel
    · decide +kernel
  obtain ⟨v, hv, rfl⟩ : ∃ v, s.dashboard (some 1) = .ok v ∧
      v = ⟨1, 1, some (empty.clock + 1), 1⟩ :=
    Outcome.of_toOption_map (f := id) (by decide +kernel)
  refine ⟨⟨_, rfl⟩, hlistable, hv, fun cs hcs => ?_⟩
  have hnone : (s.columns (some 1) none (some defaultSampleSize)).isOk = false := by decide +kernel
  rw [hcs] at hnone
  cases hnone

end Store

end Gridbook
