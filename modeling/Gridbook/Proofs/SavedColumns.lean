/-
Gridbook/Proofs/SavedColumns.lean

Which saved column a name stands for.  Saved columns are evaluated from the
youngest to the oldest, and what they give is kept by name.  Nothing keeps an
owner from saving two columns of a dataset under one name; then the older one is
evaluated last, and what it gives stands in the place of the other's.

Main statement: whenever the saved columns are evaluated, every name among them
has the outcome of the oldest column of that name, with one value for each row,
and this is the outcome of every column that shares its name with no other
(`outcomes_by_name`).
-/
import Gridbook.Proofs.Formula.Settling
import Gridbook.Proofs.Isolation

namespace Gridbook

/-! ### Older and younger columns -/

/-- Was the column saved before the other one? -/
def SavedColumn.IsOlder (c d : SavedColumn) : Prop :=
  c.created < d.created ∨ c.created = d.created ∧ c.id < d.id

/-- The order in which saved columns are listed. -/
def SavedColumn.compare (c d : SavedColumn) : Ordering :=
  (Ord.compare d.created c.created).then (Ord.compare d.id c.id)

instance : Std.TransCmp SavedColumn.compare :=
  inferInstanceAs (Std.TransCmp fun c d => compareLex (compareOn fun c : SavedColumn => c.created)
    (compareOn fun c => c.id) d c)

theorem SavedColumn.isOlder_of_compare {c d : SavedColumn} (h : (c.compare d).isLE)
    (hid : c.id ≠ d.id) : d.IsOlder c := by
  rw [SavedColumn.compare] at h
  rcases Ordering.isLE_iff_eq_lt_or_eq_eq.1 h with hlt | heq
  · rcases Ordering.then_eq_lt.1 hlt with hcreated | ⟨hcreated, hid⟩
    · exact .inl (Nat.compare_eq_lt.1 hcreated)
    · exact .inr ⟨Nat.compare_eq_eq.1 hcreated, Nat.compare_eq_lt.1 hid⟩
  · exact absurd (Nat.compare_eq_eq.1 (Ordering.then_eq_eq.1 heq).2).symm hid

/-! ### What a formula gives -/

/-- Is this what the text gives on the rows, as a formula that may ask for the known
columns?  If it is not fit, it has no value on any row. -/
def Formula.Gives (known : List String) (rows : List Fields) (text : String) (b : Batch) : Prop :=
  ∃ verdict, checkText text known = .ok verdict ∧
    (verdict.isValid = true → ∃ f, parse text = .ok f ∧ f.execute rows = .ok b) ∧
    (verdict.isValid = false → b = ⟨rows.map fun _ => none, verdict.errors⟩)

theorem Formula.length_execute {f : Formula} {rows : List Fields} {b : Batch}
    (h : f.execute rows = .ok b) : b.values.length = rows.length := by
  obtain ⟨os, hos, rfl⟩ := execute_eq_ok_iff.1 h
  rw [List.length_map, hos.length_eq]

/-- One value for each row, fit or not. -/
theorem Formula.Gives.length_values {known : List String} {rows : List Fields} {text : String}
    {b : Batch} (h : Gives known rows text b) : b.values.length = rows.length := by
  obtain ⟨verdict, -, hvalid, hinvalid⟩ := h
  cases hfit : verdict.isValid with
  | true =>
    obtain ⟨f, -, hb⟩ := hvalid hfit
    exact length_execute hb
  | false =>
    rw [hinvalid hfit]
    exact List.length_map _

namespace Store

variable {s : Store} {owner : Ident} {dataset : Option Int} {known : List String}
  {rows : List Fields} {listed : List SavedColumn}

theorem gives_of_checkedBatch {text : String} {b : Formula.Batch}
    (h : checkedBatch known rows text = .ok b) : Formula.Gives known rows text b := by
  obtain ⟨verdict, hverdict, h⟩ := Outcome.bind_eq_ok.1 h
  refine ⟨verdict, hverdict, fun hfit => ?_, fun hfit => ?_⟩
  · rw [if_pos hfit] at h
    obtain ⟨f, hf, hb⟩ := Outcome.bind_eq_ok.1 h
    exact ⟨f, ofSyntax_eq_ok.1 hf, hb⟩
  · rw [if_neg (Bool.eq_false_iff.1 hfit)] at h
    exact (Except.ok.inj h).symm

/-! ### The columns of a dataset -/

theorem names_firstPlaces {ds : List Dataset} {name : String} :
    name ∈ (firstPlaces ds).map (·.1) ↔ ∃ d ∈ ds, name ∈ d.columns := by
  constructor
  · intro h
    obtain ⟨place, hplace, rfl⟩ := List.mem_map.1 h
    obtain ⟨d, hd, hname, -⟩ := mem_firstPlaces hplace
    exact ⟨d, hd, hname⟩
  · rintro ⟨d, hd, hname⟩
    let pairs := ds.flatMap fun d => d.columns.map fun name => (name, d.id)
    have hpair : (name, d.id) ∈ pairs := List.mem_flatMap.2 ⟨d, hd, List.mem_map_of_mem hname⟩
    have hmem : d.id ∈ (pairs.filter (·.1 = name)).map (·.2) :=
      List.mem_map_of_mem (List.mem_filter.2 ⟨hpair, decide_eq_true rfl⟩)
    obtain ⟨id, hid⟩ := Option.isSome_iff_exists.1
      (List.isSome_head?.2 (List.ne_nil_of_mem hmem))
    refine List.mem_map.2 ⟨(name, id), List.mem_filterMap.2 ⟨_, List.mem_map_of_mem
      (mem_distinct.2 (List.mem_map_of_mem hpair)), ?_⟩, rfl⟩
    rw [hid]
    rfl

/-- The datasets that a listing of columns looks at are the owner's, and the one
that is named if one is. -/
theorem mem_listedDatasets_iff (hs : s.Integral) {ds : List Dataset}
    (h : s.listedDatasets owner dataset = .ok ds) (d : Dataset) :
    d ∈ ds ↔ d ∈ s.datasets ∧ owner.names d.owner ∧ ∀ id ∈ dataset, id = d.id := by
  cases dataset with
  | none =>
    obtain ⟨_, -, h⟩ := Outcome.bind_eq_ok.1 (during_eq_ok.1 h)
    cases h
    rw [(perm_sortBy _ _).mem_iff, List.mem_filter]
    exact and_congr_right fun _ => ⟨fun hown => ⟨hown, nofun⟩, fun hown => hown.1⟩
  | some id =>
    obtain ⟨found, hfound, h⟩ := Outcome.bind_eq_ok.1 h
    cases h
    obtain ⟨_, -, hfind⟩ := Outcome.bind_eq_ok.1 (during_eq_ok.1 hfound)
    have hfind := Except.ok.inj hfind
    constructor
    · intro hd
      rw [Option.mem_toList.1 hd] at hfind
      have hnames := List.find?_some hfind
      rw [Bool.and_eq_true, names_iff] at hnames
      refine ⟨List.mem_of_find?_eq_some hfind, hnames.2, fun i hi => ?_⟩
      cases hi
      exact Option.some.inj hnames.1
    · rintro ⟨hd, hown, hid⟩
      rw [hid id rfl, hs.find?_dataset hd hown] at hfind
      exact Option.mem_toList.2 hfind.symm

/-- The columns that are listed are those of the datasets. -/
theorem names_columns [Reader] (hs : s.Integral) {sampleSize : Option Int} {columns : List Column}
    (h : s.columns owner dataset sampleSize = .ok columns) (name : String) :
    name ∈ columns.map (·.name) ↔
      ∃ d ∈ s.datasets, (owner.names d.owner ∧ ∀ id ∈ dataset, id = d.id) ∧ name ∈ d.columns := by
  obtain ⟨ds, hds, h⟩ := Outcome.bind_eq_ok.1 h
  obtain ⟨found, hfound, h⟩ := Outcome.bind_eq_ok.1 h
  cases h
  have hnames : found.map (·.name) = (firstPlaces ds).map (·.1) := by
    refine Outcome.map_of_mapM hfound fun place c hc => ?_
    obtain ⟨cells, -, hc⟩ := Outcome.bind_eq_ok.1 hc
    obtain ⟨kind, -, hc⟩ := Outcome.bind_eq_ok.1 hc
    cases hc
    rfl
  rw [((perm_sortBy _ found).map (·.name)).mem_iff, hnames, names_firstPlaces]
  simp only [mem_listedDatasets_iff hs hds, and_assoc]

/-! ### The columns that are evaluated -/

/-- The saved columns that are listed are the owner's, those of the dataset if one is
named, from the youngest to the oldest. -/
theorem savedOf_eq_ok (hs : s.Integral) (h : s.savedOf owner dataset = .ok listed) :
    (∀ c, c ∈ listed ↔ c ∈ s.saved ∧ owner.names c.owner ∧ ∀ id ∈ dataset, id = c.dataset) ∧
      listed.Pairwise fun c d => d.IsOlder c := by
  obtain ⟨_, -, h⟩ := Outcome.bind_eq_ok.1 (during_eq_ok.1 h)
  cases h
  have hperm := perm_sortBy (fun c d : SavedColumn => (c.compare d).isLE) (s.saved.filter fun c =>
    owner.names c.owner && (dataset.map (· == (c.dataset : Int))).getD true)
  refine ⟨fun c => (hperm.mem_iff.trans List.mem_filter).trans ?_, ?_⟩
  · rw [Bool.and_eq_true]
    cases dataset with
    | none => simp
    | some id => simp
  · have hids := List.pairwise_map.1 ((hperm.map (·.id)).nodup_iff.2
      (hs.savedIds.sublist (List.filter_sublist.map _)))
    exact (pairwise_isLE_sortBy _).imp₂ (fun c d => SavedColumn.isOlder_of_compare) hids

/-- A name has the outcome of its oldest column, which comes last. -/
theorem exists_oldest {pairs : List (String × Formula.Batch)}
    (hpairs : List.Forall₂ (fun c p => p.1 = c.name ∧ Formula.Gives known rows c.formula p.2)
      listed pairs)
    (horder : listed.Pairwise fun c d => d.IsOlder c) {name : String}
    (hname : name ∈ listed.map (·.name)) :
    ∃ oldest ∈ listed, oldest.name = name ∧
      (∀ c ∈ listed, c.name = name → c = oldest ∨ oldest.IsOlder c) ∧
      ∃ b, (Named.ofPairs pairs).lookup name = some b ∧
        Formula.Gives known rows oldest.formula b := by
  induction hpairs with
  | nil => cases hname
  | @cons c p listed pairs hp hpairs ih =>
    obtain ⟨hyoungest, horder⟩ := List.pairwise_cons.1 horder
    rw [Named.lookup_ofPairs_cons]
    by_cases hlater : name ∈ listed.map (·.name)
    · -- another column of the name is still to come
      obtain ⟨oldest, hmem, hname', hothers, b, hb, hgives⟩ := ih horder hlater
      refine ⟨oldest, List.mem_cons_of_mem c hmem, hname', ?_, b, ?_, hgives⟩
      · refine List.forall_mem_cons.2 ⟨fun _ => .inr (hyoungest oldest hmem), hothers⟩
      · rw [hb]
        rfl
    · have hc : name = c.name := (List.mem_cons.1 hname).resolve_right hlater
      refine ⟨c, List.mem_cons_self, hc.symm, ?_, p.2, ?_, hp.2⟩
      · refine List.forall_mem_cons.2 ⟨fun _ => .inl rfl, fun d hd hdname => ?_⟩
        exact absurd (hdname ▸ List.mem_map_of_mem hd) hlater
      · have hnames : listed.map (·.name) = pairs.map (·.1) := by
          rw [← List.forall₂_eq_eq_eq, List.forall₂_map_left_iff, List.forall₂_map_right_iff]
          exact hpairs.imp fun c p hp => hp.1.symm
        rw [Named.lookup_eq_none fun hmem => hlater (hnames ▸ Named.mem_names_ofPairs.1 hmem),
          hp.1, if_pos hc]
        rfl

/-- Whenever the saved columns of an owner are evaluated, all that are listed have an
entry under their names.  It is what the oldest column of the name gives, judged by
the columns that the datasets have now, with one value for each row; so a column has
its own outcome if no other one has its name. -/
theorem outcomes_by_name [Reader] (hs : s.Reachable) {named : Named Formula.Batch}
    (h : s.evaluateSaved owner dataset rows = .ok named) :
    ∃ known listed, s.savedOf owner dataset = .ok listed ∧
      (∀ c, c ∈ listed ↔ c ∈ s.saved ∧ owner.names c.owner ∧ ∀ id ∈ dataset, id = c.dataset) ∧
      (∀ name, name ∈ known ↔ ∃ d ∈ s.datasets,
        (owner.names d.owner ∧ ∀ id ∈ dataset, id = d.id) ∧ name ∈ d.columns) ∧
      named.names.Nodup ∧ (∀ name, name ∈ named.names ↔ name ∈ listed.map (·.name)) ∧
      ∀ c ∈ listed, ∃ b, named.lookup c.name = some b ∧ b.values.length = rows.length ∧
        (∃ oldest ∈ listed, oldest.name = c.name ∧
          (∀ e ∈ listed, e.name = c.name → e = oldest ∨ oldest.IsOlder e) ∧
          Formula.Gives known rows oldest.formula b) ∧
        ((∀ e ∈ listed, e.name = c.name → e = c) → Formula.Gives known rows c.formula b) := by
  obtain ⟨columns, hcolumns, h⟩ := Outcome.bind_eq_ok.1 h
  obtain ⟨listed, hlisted, h⟩ := Outcome.bind_eq_ok.1 h
  obtain ⟨pairs, hpairs, h⟩ := Outcome.bind_eq_ok.1 h
  cases h
  obtain ⟨hmem, horder⟩ := savedOf_eq_ok hs.integral hlisted
  have hnames : pairs.map (·.1) = listed.map (·.name) := by
    refine Outcome.map_of_mapM hpairs fun c p hp => ?_
    obtain ⟨b, -, rfl⟩ := Outcome.map_eq_ok.1 hp
    rfl
  have hgives : List.Forall₂ (fun c p => p.1 = c.name ∧
      Formula.Gives (columns.map (·.name)) rows c.formula p.2) listed pairs := by
    refine (Outcome.mapM_eq_ok.1 hpairs).imp fun c p hp => ?_
    obtain ⟨b, hb, rfl⟩ := Outcome.map_eq_ok.1 hp
    exact ⟨rfl, gives_of_checkedBatch hb⟩
  refine ⟨columns.map (·.name), listed, hlisted, hmem, names_columns hs.integral hcolumns,
    Named.nodup_names_ofPairs pairs, fun name => ?_, fun c hc => ?_⟩
  · rw [Named.mem_names_ofPairs, hnames]
  · obtain ⟨oldest, holdest, hname, hothers, b, hb, hfirst⟩ :=
      exists_oldest hgives horder (List.mem_map_of_mem hc)
    refine ⟨b, hb, hfirst.length_values, ⟨oldest, holdest, hname, hothers, hfirst⟩, ?_⟩
    intro halone
    rw [← halone oldest holdest hname]
    exact hfirst

/-- Of three columns two share a name, and the third has its own outcome. -/
theorem outcomes_by_name_three :
    let u : Upload := ⟨["a", "b"].map .text, [], false⟩
    let s := empty.run [.ingest (some 1) (some "t") none u,
      .save (some 1) (some 1) (some "n") (.text "a"),
      .save (some 1) (some 1) (some "n") (.text "b"),
      .save (some 1) (some 1) (some " m ") (.text "b")]
    ∃ named known b, s.evaluateSaved (some 1) (some 1) [[("a", .bool true)]] = .ok named ∧
      (∀ name, name ∈ named.names ↔ name ∈ ["n", "n", "m"]) ∧
      named.lookup "m" = some b ∧ b.values.length = 1 ∧ "b" ∈ known ∧
      Formula.Gives known [[("a", .bool true)]] "b" b := by
  intro u s
  have hok : (s.evaluateSaved (some 1) (some 1) [[("a", .bool true)]]).isOk = true := by
    decide +kernel
  have hsaved : s.saved.map (·.name) = ["n", "n", "m"] := by decide +kernel
  have howned : ∀ c ∈ s.saved, c.owner = 1 ∧ c.dataset = 1 := by decide +kernel
  have hm : ∀ c ∈ s.saved, c.name = "m" → c.formula = "b" ∧ c.id = 3 := by decide +kernel
  rcases h : s.evaluateSaved (some 1) (some 1) [[("a", .bool true)]] with x | named
  · rw [h] at hok
    cases hok
  have hs : s.Reachable := ⟨_, rfl⟩
  obtain ⟨known, listed, -, hlisted, hknown, -, hnames, hall⟩ := outcomes_by_name hs h
  have hmem : ∀ c, c ∈ listed ↔ c ∈ s.saved := by
    refine fun c => (hlisted c).trans ⟨fun hc => hc.1, fun hc => ⟨hc, ?_, fun id hid => ?_⟩⟩
    · rw [(howned c hc).1]
      rfl
    · rw [(howned c hc).2]
      exact (Option.some.inj hid).symm
  obtain ⟨c, hc, hname⟩ : ∃ c ∈ s.saved, c.name = "m" :=
    List.mem_map.1 (hsaved ▸ List.mem_of_getElem? (i := 2) rfl)
  obtain ⟨b, hb, hlength, -, hgives⟩ := hall c ((hmem c).2 hc)
  rw [hname] at hb
  refine ⟨named, known, b, rfl, fun name => ?_, hb, hlength, ?_, ?_⟩
  · rw [hnames, ← hsaved, List.mem_map, List.mem_map]
    simp only [hmem]
  · have hb : ∃ d ∈ s.datasets, d.owner = 1 ∧ d.id = 1 ∧ "b" ∈ d.columns := by decide +kernel
    obtain ⟨d, hd, hown, hid, hb⟩ := hb
    refine (hknown "b").2 ⟨d, hd, ⟨?_, fun id hi => ?_⟩, hb⟩
    · rw [hown]
      rfl
    · rw [hid]
      exact (Option.some.inj hi).symm
  · rw [← (hm c hc hname).1]
    refine hgives fun e he hsame => ?_
    have he := (hmem e).1 he
    -- the id of a saved column is its own
    refine List.inj_on_of_nodup_map hs.integral.savedIds he hc ?_
    rw [(hm c hc hname).2, (hm e he (hsame.trans hname)).2]

/-- The younger of two columns of one name is evaluated in vain. -/
theorem younger_column_lost :
    let u : Upload := ⟨["a", "b"].map .text, [], false⟩
    let s := empty.run [.ingest (some 1) (some "t") none u,
      .save (some 1) (some 1) (some "n") (.text "a"),
      .save (some 1) (some 1) (some "n") (.text "b")]
    let rows : List Fields := [[("a", .number (.whole 1))]]
    s.Reachable ∧ ∃ listed named, s.savedOf (some 1) (some 1) = .ok listed ∧
      s.evaluateSaved (some 1) (some 1) rows = .ok named ∧
      ∃ c ∈ listed, c.name = "n" ∧ c.formula = "b" ∧ ∀ b, named.lookup "n" = some b →
        ¬ Formula.Gives ["a", "b"] rows "b" b := by
  intro u s rows
  obtain ⟨listed, hlist, hlisted⟩ : ∃ listed, s.savedOf (some 1) (some 1) = .ok listed ∧
      (listed.map fun c => (c.name, c.formula)) = [("n", "b"), ("n", "a")] :=
    Outcome.of_toOption_map (by decide +kernel)
  obtain ⟨named, heval, hnamed⟩ : ∃ named, s.evaluateSaved (some 1) (some 1) rows = .ok named ∧
      (named.lookup "n").map (·.errors) = some [] :=
    Outcome.of_toOption_map (by decide +kernel)
  obtain ⟨c, hc, hcolumn⟩ : ∃ c ∈ listed, (c.name, c.formula) = ("n", "b") :=
    List.mem_map.1 (hlisted ▸ List.mem_cons_self)
  obtain ⟨hname, hformula⟩ := Prod.mk.inj hcolumn
  refine ⟨⟨_, rfl⟩, listed, named, hlist, heval, c, hc, hname, hformula, fun b hb hgives => ?_⟩
  -- the entry has no errors, and the younger formula has one on the row
  have hfit : (Formula.checkText "b" ["a", "b"]).toOption = some ⟨[], []⟩ := by decide +kernel
  have hfault : ((Formula.parse "b").toOption.bind fun f =>
      ((f.execute rows).map (·.errors)).toOption) ≠ some [] := by decide +kernel
  obtain ⟨verdict, hverdict, hvalid, -⟩ := hgives
  rw [hverdict] at hfit
  cases hfit
  obtain ⟨f, hf, hexecute⟩ := hvalid rfl
  rw [hf] at hfault
  rw [hb] at hnamed
  refine hfault ?_
  show ((f.execute rows).map (·.errors)).toOption = some []
  rw [hexecute]
  exact hnamed

end Store

end Gridbook
