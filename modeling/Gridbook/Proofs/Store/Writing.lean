/-
Gridbook/Proofs/Store/Writing.lean

What a write touches.  A deletion names a thing by its number and the caller, and the
tables are searched for both; the rows and saved columns of a dataset are searched for
by the same two numbers.  That a dataset is gone with all that refers to it, and that
nothing else is, comes from the store being integral: ids are unique, and whatever
refers to a dataset has its owner (`Integral.without_eq_withoutDataset`).

A deletion asks the store for numbers, and the store has numbers of 64 bits only.
Where it has them, a deletion either takes its target away or finds nothing
(`DeletesExactly`).

Main statement: each write that succeeds touches its target and nothing else
(`writes_touch_target`).
-/
import Gridbook.Proofs.Store.Atomic
import Gridbook.Proofs.Store.Metadata

namespace Gridbook

/-- Has the store the number, if one is asked for? -/
def Ident.Fits (i : Ident) : Prop :=
  ∀ n ∈ i, fitsWord n

namespace Store

variable {s s' : Store} {owner dataset column : Ident} {d : Dataset} {c : SavedColumn}

/-- The store without the dataset of this number and all that refers to it, whoever
it belongs to. -/
def withoutDataset (s : Store) (id : Nat) : Store :=
  { s with
    datasets := s.datasets.filter (·.id ≠ id)
    rows := s.rows.filter (·.dataset ≠ id)
    saved := s.saved.filter (·.dataset ≠ id) }

/-- The store without the saved column of this number. -/
def withoutColumn (s : Store) (id : Nat) : Store :=
  { s with saved := s.saved.filter (·.id ≠ id) }

/-- Does a deletion take away what it names and nothing else?  `Names n` says that the
thing number `n` is there and is meant, and `without n` is the store without it. -/
structure DeletesExactly (s : Store) (what : Absent) (fits : Prop) (Names : Nat → Prop)
    (without : Nat → Store) (w : Written Unit) : Prop where
  ok_iff : ∀ s', w = (.ok (), s') ↔ fits ∧ ∃ n, Names n ∧ s' = without n
  absent_iff : ∀ s', w = (.error (.absent what), s') ↔ fits ∧ (∀ n, ¬ Names n) ∧ s' = s
  error : ∀ e s', w = (.error e, s') → e = .absent what ∨ e = .overflow ∧ ¬ fits ∧ s' = s

/-! ### Deletions -/

/-- Statements on tables that are there fail only by their numbers. -/
theorem statement_of_hasTable {t : Table} {bound : List Int} (ht : s.hasTable t) :
    s.statement [t] bound = if bound.all fitsWord then .ok () else .error .overflow := by
  rw [statement, List.all_cons, ht]
  rfl

theorem all_fitsWord_iff (a b : Ident) :
    (a.toList ++ b.toList).all fitsWord = true ↔ a.Fits ∧ b.Fits := by
  simp only [List.all_eq_true, List.forall_mem_append, Option.mem_toList]
  rfl

/-- A deletion whose transaction takes away what is named, if there is such a thing,
deletes exactly that. -/
theorem deletesExactly_of {what : Absent} {bound : List Int} {found : Bool} {t : Store}
    {fits : Prop} {Names : Nat → Prop} {without : Nat → Store} {x : Except Error (Bool × Store)}
    (hfits : bound.all fitsWord = true ↔ fits)
    (hx : x = if bound.all fitsWord then .ok (found, t) else .error .overflow)
    (hfound : found = true ↔ ∃ n, Names n) (hwithout : ∀ n, Names n → t = without n)
    (hnone : found = false → t = s) :
    DeletesExactly s what fits Names without (deleted what (s.commit x)) := by
  cases hall : bound.all fitsWord with
  | false =>
    have hnot : ¬ fits := fun h => by cases hall.symm.trans (hfits.2 h)
    rw [hx, hall]
    refine ⟨fun s' => ⟨nofun, fun h => absurd h.1 hnot⟩, fun s' => ⟨nofun, fun h => absurd h.1 hnot⟩,
      fun e s' h => ?_⟩
    cases h
    exact .inr ⟨rfl, hnot, rfl⟩
  | true =>
    have hfits := hfits.1 hall
    rw [hx, hall]
    cases found with
    | true =>
      obtain ⟨n, hn⟩ := hfound.1 rfl
      refine ⟨fun s' => ⟨fun h => ?_, ?_⟩, fun s' => ⟨nofun, fun h => absurd hn (h.2.1 n)⟩, nofun⟩
      · cases h
        exact ⟨hfits, n, hn, hwithout n hn⟩
      · rintro ⟨-, m, hm, rfl⟩
        rw [← hwithout m hm]
        rfl
    | false =>
      have hnot : ∀ n, ¬ Names n := fun n hn => by cases hfound.2 ⟨n, hn⟩
      cases hnone rfl
      refine ⟨fun s' => ⟨nofun, ?_⟩, fun s' => ⟨fun h => ?_, ?_⟩, fun e s' h => ?_⟩
      · rintro ⟨-, n, hn, -⟩
        exact absurd hn (hnot n)
      · cases h
        exact ⟨hfits, hnot, rfl⟩
      · rintro ⟨-, -, rfl⟩
        rfl
      · cases h
        exact .inl rfl

/-- The saved columns of a dataset have its owner. -/
theorem Integral.savedOwner_eq (hs : s.Integral) (hd : d ∈ s.datasets) (hc : c ∈ s.saved)
    (h : c.dataset = d.id) : c.owner = d.owner := by
  obtain ⟨e, he, hdataset, howner⟩ := hs.savedOwned c hc
  rw [← howner, hs.eq_of_id_eq he hd (hdataset.trans h)]

theorem names_number (n id : Nat) : Ident.names (some (n : Int)) id = decide (id = n) := by
  rw [Bool.eq_iff_iff, names_iff, decide_eq_true_iff, Option.some.injEq, Int.ofNat_inj]
  exact eq_comm

/-- Being named by two numbers is being the thing of the first one, for things that
have the second number if they have the first. -/
theorem not_names_iff {α : Type} {as : List α} {ref : α → Nat} {of : α → Int} {id : Nat}
    {other : Int} (h : ∀ a ∈ as, ref a = id → of a = other) :
    ∀ a ∈ as, (!(Ident.names (some (id : Int)) (ref a) && Ident.names (some other) (of a))) =
      decide (ref a ≠ id) := by
  intro a ha
  by_cases hid : ref a = id
  · rw [decide_eq_false (not_not_intro hid), hid, h a ha hid, names_iff.2 rfl, names_iff.2 rfl]
    rfl
  · rw [decide_eq_true hid, names_number, decide_eq_false hid]
    rfl

/-- Deleting what has a dataset's number and its owner is deleting all that has the
number. -/
theorem Integral.without_eq_withoutDataset (hs : s.Integral) (hd : d ∈ s.datasets) :
    s.without (some d.owner) (some (d.id : Int)) = s.withoutDataset d.id := by
  have howner : ∀ e ∈ s.datasets, e.id = d.id → e.owner = d.owner :=
    fun e he hid => congrArg Dataset.owner (hs.eq_of_id_eq he hd hid)
  rw [without, Store.restrict, withoutDataset]
  rw [List.filter_congr (not_names_iff fun r hr => hs.owner_eq hd hr),
    List.filter_congr (not_names_iff fun c hc => hs.savedOwner_eq hd hc),
    List.filter_congr (not_names_iff howner)]

theorem Integral.withoutSaved_eq_withoutColumn (hs : s.Integral) (hc : c ∈ s.saved) :
    s.withoutSaved (some c.owner) (some (c.id : Int)) = s.withoutColumn c.id := by
  have howner : ∀ e ∈ s.saved, e.id = c.id → e.owner = c.owner :=
    fun e he hid => congrArg SavedColumn.owner (List.inj_on_of_nodup_map hs.savedIds he hc hid)
  rw [Store.withoutSaved, withoutColumn, List.filter_congr (not_names_iff howner)]

/-- Something is found by two numbers when they are those of a thing that is there. -/
theorem any_names_iff {α : Type} {as : List α} {ref : α → Nat} {of : α → Int} {i o : Ident} :
    (as.any fun a => i.names (ref a) && o.names (of a)) = true ↔
      ∃ n, ∃ a ∈ as, ref a = n ∧ i = some (n : Int) ∧ o = some (of a) := by
  simp only [List.any_eq_true, Bool.and_eq_true, names_iff]
  constructor
  · rintro ⟨a, ha, hi, ho⟩
    exact ⟨ref a, a, ha, rfl, hi, ho⟩
  · rintro ⟨n, a, ha, rfl, hi, ho⟩
    exact ⟨a, ha, hi, ho⟩

theorem Reachable.deleteStatements_eq (hs : s.Reachable) (owner dataset : Ident) :
    s.deleteStatements owner dataset =
      if (dataset.toList ++ owner.toList).all fitsWord then
        .ok (s.datasets.any fun d => dataset.names d.id && owner.names d.owner,
          s.without owner dataset)
      else .error .overflow := by
  simp only [deleteStatements, statement_of_hasTable (hs.hasTable _)]
  cases (dataset.toList ++ owner.toList).all fitsWord <;> rfl

theorem Reachable.deleteSavedStatement_eq (hs : s.Reachable) (owner column : Ident) :
    s.deleteSavedStatement owner column =
      if (column.toList ++ owner.toList).all fitsWord then
        .ok (s.saved.any fun c => column.names c.id && owner.names c.owner,
          s.withoutSaved owner column)
      else .error .overflow := by
  simp only [deleteSavedStatement, statement_of_hasTable (hs.hasTable _)]
  cases (column.toList ++ owner.toList).all fitsWord <;> rfl

theorem Reachable.deleteDataset_exactly (hs : s.Reachable) (owner dataset : Ident) :
    DeletesExactly s .dataset (dataset.Fits ∧ owner.Fits)
      (fun n => ∃ d ∈ s.datasets, d.id = n ∧ dataset = some (n : Int) ∧ owner = some d.owner)
      s.withoutDataset (s.deleteDataset owner dataset) := by
  refine deletesExactly_of (all_fitsWord_iff dataset owner) (hs.deleteStatements_eq owner dataset)
    any_names_iff ?_ fun hnone => ?_
  · rintro n ⟨d, hd, rfl, rfl, rfl⟩
    exact hs.integral.without_eq_withoutDataset hd
  · refine hs.integral.without_eq fun d hd hnamed => ?_
    exact Bool.eq_false_iff.1 hnone (List.any_eq_true.2 ⟨d, hd, hnamed⟩)

theorem Reachable.deleteSaved_exactly (hs : s.Reachable) (owner column : Ident) :
    DeletesExactly s .savedColumn (column.Fits ∧ owner.Fits)
      (fun n => ∃ c ∈ s.saved, c.id = n ∧ column = some (n : Int) ∧ owner = some c.owner)
      s.withoutColumn (s.deleteSaved owner column) := by
  refine deletesExactly_of (all_fitsWord_iff column owner)
    (hs.deleteSavedStatement_eq owner column) any_names_iff ?_ fun hnone => ?_
  · rintro n ⟨c, hc, rfl, rfl, rfl⟩
    exact hs.integral.withoutSaved_eq_withoutColumn hc
  · rw [withoutSaved, List.filter_eq_self.2 fun c hc => ?_]
    rw [Bool.not_eq_true', Bool.eq_false_iff]
    exact List.any_eq_false.1 hnone c hc

/-! ### Additions -/

/-- What is stored under the next number is stored under a number that nothing has. -/
theorem ne_of_eq_nextId {α : Type} {as : List α} {ref : α → Nat} {n : Nat}
    (h : n = nextId (as.map ref)) : ∀ a ∈ as, ref a ≠ n := by
  intro a ha
  rw [h]
  exact Nat.ne_of_lt (lt_nextId (List.mem_map_of_mem ha))

/-- A write that succeeds touches its target and nothing else, of whatever owner.  Where
the store has the numbers that are asked for, a dataset is deleted exactly if it is
there and is the owner's, with all its rows and saved columns, and it is absent
otherwise; the same for a saved column.  A formula that is saved is one more saved
column, a table that is stored is one more dataset with its rows, and each has a
number that was free. -/
theorem writes_touch_target (hs : s.Reachable) (owner : Ident) :
    (∀ dataset : Ident, DeletesExactly s .dataset (dataset.Fits ∧ owner.Fits)
      (fun n => ∃ d ∈ s.datasets, d.id = n ∧ dataset = some (n : Int) ∧ owner = some d.owner)
      s.withoutDataset (s.deleteDataset owner dataset)) ∧
    (∀ column : Ident, DeletesExactly s .savedColumn (column.Fits ∧ owner.Fits)
      (fun n => ∃ c ∈ s.saved, c.id = n ∧ column = some (n : Int) ∧ owner = some c.owner)
      s.withoutColumn (s.deleteSaved owner column)) ∧
    (∀ dataset name formula c s', s.save owner dataset name formula = (.ok c, s') →
      (Event.save owner dataset name formula).Saves c ∧ (∀ b ∈ s.saved, b.id ≠ c.id) ∧
      s'.saved = s.saved ++ [c] ∧ s'.datasets = s.datasets ∧ s'.rows = s.rows) ∧
    ∀ name filename u d s', s.ingest owner name filename u = (.ok d, s') →
      owner = some d.owner ∧ (∀ e ∈ s.datasets, e.id ≠ d.id) ∧
      s'.datasets = s.datasets ++ [d] ∧ s'.rows = s.rows ++ s'.rowsOf d.id ∧
      u.Describes d (s'.rowsOf d.id) ∧ s'.saved = s.saved := by
  refine ⟨hs.deleteDataset_exactly owner, hs.deleteSaved_exactly owner, ?_, ?_⟩
  · intro dataset name formula c s' h
    obtain ⟨-, hsaves, -, hid, rfl⟩ := save_eq_ok h
    exact ⟨hsaves, ne_of_eq_nextId hid, rfl, rfl, rfl⟩
  · intro name filename u d s' h
    obtain ⟨-, -, -, -, hdescribes⟩ := describes_of_ingest hs.integral h
    obtain ⟨howner, hid, fields, -, rfl⟩ := ingest_eq_ok h
    refine ⟨howner, ne_of_eq_nextId hid, rfl, ?_, hdescribes, rfl⟩
    exact congrArg (s.rows ++ ·) (rowsOf_ingested hs.integral hid fields _ _).symm

/-- Of two datasets of two owners one is deleted by its owner; the other owner had
nothing to delete. -/
theorem writes_touch_target_two :
    let u : Upload := ⟨[.text "a"], [[.bool true], [.null]], false⟩
    let s := empty.run
      [.ingest (some 1) (some "t") none u, .ingest (some 2) (some "u") none u,
        .save (some 2) (some 2) (some "n") (.text "a")]
    s.Reachable ∧
      s.deleteDataset (some 1) (some 2) = (.error (.absent .dataset), s) ∧
      s.deleteDataset (some 2) (some 2) = (.ok (), s.withoutDataset 2) ∧
      (s.withoutDataset 2).rows.map (·.dataset) = [1, 1] ∧
      s.saved.length = 1 ∧ (s.withoutDataset 2).saved.length = 0 := by
  intro u s
  have hs : s.Reachable := ⟨_, rfl⟩
  have hdatasets : s.datasets.map (fun d => (d.id, d.owner)) = [(1, 1), (2, 2)] := by
    decide +kernel
  have howned : ∀ d ∈ s.datasets, (d.id, d.owner) ∈ [((1 : Nat), (1 : Int)), (2, 2)] := by
    rw [← hdatasets]
    exact fun d => List.mem_map_of_mem
  have hone : Ident.Fits (some 1) := fun n hn => Option.some.inj hn ▸ rfl
  have htwo : Ident.Fits (some 2) := fun n hn => Option.some.inj hn ▸ rfl
  refine ⟨hs, ?_, ?_, by decide +kernel, by decide +kernel, by decide +kernel⟩
  · refine (((writes_touch_target hs (some 1)).1 (some 2)).absent_iff s).2 ⟨⟨htwo, hone⟩, ?_, rfl⟩
    rintro n ⟨d, hd, rfl, hid, howner⟩
    have h := howned d hd
    rw [← Option.some.inj howner, ← Int.ofNat.inj (Option.some.inj hid)] at h
    exact absurd h (by decide)
  · refine (((writes_touch_target hs (some 2)).1 (some 2)).ok_iff _).2 ⟨⟨htwo, htwo⟩, 2, ?_, rfl⟩
    obtain ⟨d, hd, h⟩ := List.mem_map.1 (hdatasets ▸ List.mem_cons_of_mem _ List.mem_cons_self)
    exact ⟨d, hd, congrArg Prod.fst h, rfl, congrArg some (congrArg Prod.snd h).symm⟩

/-- No dataset has the number 2^63, and deleting it does not find that out: the store
has no such number. -/
theorem large_number_not_absent :
    let u : Upload := ⟨[.text "a"], [[.null]], false⟩
    let s := empty.run [.ingest (some 1) (some "t") none u]
    s.Reachable ∧ (∀ d ∈ s.datasets, (d.id : Int) ≠ 9223372036854775808) ∧
      s.deleteDataset (some 1) (some 9223372036854775808) ≠ (.error (.absent .dataset), s) ∧
      s.deleteDataset (some 1) (some 9223372036854775808) = (.error .overflow, s) := by
  intro u s
  have hs : s.Reachable := ⟨_, rfl⟩
  have hdeleted : s.deleteDataset (some 1) (some 9223372036854775808) = (.error .overflow, s) := by
    rw [deleteDataset, hs.deleteStatements_eq]
    rfl
  refine ⟨hs, fun d hd => ?_, ?_, hdeleted⟩
  · have hid : d.id ∈ s.datasets.map (·.id) := List.mem_map_of_mem hd
    rw [List.mem_singleton.1 (show d.id ∈ [1] from hid)]
    decide
  · rw [hdeleted]
    exact fun h => by cases congrArg Prod.fst h

end Store

end Gridbook
