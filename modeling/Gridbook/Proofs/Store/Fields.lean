/-
Gridbook/Proofs/Store/Fields.lean

Which cell of a table's row a stored field holds.  A row is looked at by label
first: labels that are equal values stand for one field, with the cell of the last
of them.  Then it is looked at by name: of the fields whose names are written alike
the last one counts.  Going by the names alone comes to the same where equal labels
are written alike and no other label that is written like them stands between them
(`Distinguishes`).

Main statement: a row is stored with the cells of the last columns of its names
(`carries_of_stores`).
-/
import Gridbook.Proofs.Store.Metadata

namespace Gridbook

/-! ### Values as the store gives them back -/

namespace Cell

mutual

/-- The cell with no types in it, at any depth. -/
def bare : Cell → Cell
  | list items => list (bareItems items)
  | object members => object (bareMembers members)
  | c => c.plain

def bareItems : List Cell → List Cell
  | [] => []
  | c :: cs => bare c :: bareItems cs

def bareMembers : List (String × Cell) → List (String × Cell)
  | [] => []
  | (k, c) :: ms => (k, bare c) :: bareMembers ms

end

mutual

/-- The store gives a cell back without the types in it, and changes nothing else. -/
theorem bare_of_written (c : Cell) {w : Cell} (h : c.written? = some w) : c.bare = w := by
  match c with
  | null => cases h; rfl
  | bool b => cases h; rfl
  | number (.whole n) => cases h; rfl
  | number (.word n) => cases h
  | number (.real x) => cases h; rfl
  | text s => cases h; rfl
  | list items =>
    rw [written?] at h
    obtain ⟨ws, hws, rfl⟩ := Option.map_eq_some_iff.1 h
    rw [bare, bareItems_of_written items hws]
  | object members =>
    rw [written?] at h
    obtain ⟨ws, hws, rfl⟩ := Option.map_eq_some_iff.1 h
    rw [bare, bareMembers_of_written members hws]
  | typed (.date d) => cases h
  | typed (.instant t) => cases h
  | typed .noTime => cases h
  | typed (.bit b) => cases h
  | typed (.double x) => cases h; rfl
  | typed (.string s) => cases h; rfl

theorem bareItems_of_written (cs : List Cell) {ws : List Cell} (h : writtenItems? cs = some ws) :
    bareItems cs = ws := by
  match cs with
  | [] => cases h; rfl
  | c :: cs =>
    rw [writtenItems?] at h
    obtain ⟨w, hw, h⟩ := Option.bind_eq_some_iff.1 h
    obtain ⟨ws, hws, h⟩ := Option.bind_eq_some_iff.1 h
    cases h
    rw [bareItems, bare_of_written c hw, bareItems_of_written cs hws]

theorem bareMembers_of_written (ms : List (String × Cell)) {ws : List (String × Cell)}
    (h : writtenMembers? ms = some ws) : bareMembers ms = ws := by
  match ms with
  | [] => cases h; rfl
  | (k, c) :: ms =>
    rw [writtenMembers?] at h
    obtain ⟨w, hw, h⟩ := Option.bind_eq_some_iff.1 h
    obtain ⟨ws, hws, h⟩ := Option.bind_eq_some_iff.1 h
    cases h
    rw [bareMembers, bare_of_written c hw, bareMembers_of_written ms hws]

end

/-- Is it what comes back for the cell?  The cell is brought into its stored form. -/
def ComesBack (c w : Cell) : Prop :=
  ∃ v, c.toStored = .ok v ∧ v.bare = w

end Cell

/-! ### Labels that are equal -/

theorem Number.compare_eq_eq_iff {m n : Number} : m.compare n = .eq ↔ m.place = n.place := by
  rw [compare, Ordering.then_eq_eq, Std.LawfulEqCmp.compare_eq_iff_eq,
    Std.LawfulEqCmp.compare_eq_iff_eq, Prod.ext_iff]

namespace Upload

variable {labels row : List Cell} {a b c : Cell} {name : String}

/-- Labels are equal as numbers, as nulls, as texts, or as values of a typed column. -/
theorem cases_of_sameLabel (h : sameLabel a b) :
    (∃ m n, numberOf? a = some m ∧ numberOf? b = some n ∧ m.place = n.place) ∨
      numberOf? a = none ∧ numberOf? b = none ∧
        (a.plain = .null ∧ b.plain = .null ∨ (∃ s, a.plain = .text s ∧ b.plain = .text s) ∨
          (∃ s t, a.plain = .typed s ∧ b.plain = .typed t) ∧ a.label = b.label) := by
  unfold sameLabel at h
  split at h
  · next m n ha hb => exact .inl ⟨m, n, ha, hb, Number.compare_eq_eq_iff.1 (beq_iff_eq.1 h)⟩
  · next ha hb =>
    refine .inr ⟨ha, hb, ?_⟩
    split at h
    · next ha hb => exact .inl ⟨ha, hb⟩
    · next s t ha hb =>
      rw [beq_iff_eq] at h
      exact .inr (.inl ⟨t, h ▸ ha, hb⟩)
    · next s t ha hb => exact .inr (.inr ⟨⟨s, t, ha, hb⟩, beq_iff_eq.1 h⟩)
    · cases h
  · cases h

/-- Labels that are equal to one label are equal. -/
theorem sameLabel_trans (hab : sameLabel a b) (hbc : sameLabel b c) : sameLabel a c := by
  rcases cases_of_sameLabel hab with ⟨m, n, ha, hb, hmn⟩ | ⟨ha, hb, hab⟩
  · rcases cases_of_sameLabel hbc with ⟨n', k, hb', hc, hnk⟩ | ⟨hb', -⟩
    · cases hb.symm.trans hb'
      simp [sameLabel, ha, hc, Number.compare_eq_eq_iff, hmn.trans hnk]
    · cases hb.symm.trans hb'
  · rcases cases_of_sameLabel hbc with ⟨n', k, hb', -⟩ | ⟨-, hc, hbc⟩
    · cases hb.symm.trans hb'
    -- both are equal to the one in between by its kind
    rcases hab with ⟨hpa, hpb⟩ | ⟨s, hpa, hpb⟩ | ⟨⟨s, t, hpa, hpb⟩, hab⟩ <;>
      rcases hbc with ⟨hpb', hpc⟩ | ⟨s', hpb', hpc⟩ | ⟨⟨s', t', hpb', hpc⟩, hbc⟩ <;>
      cases hpb.symm.trans hpb'
    · simp [sameLabel, ha, hc, hpa, hpc]
    · simp [sameLabel, ha, hc, hpa, hpc]
    · simp [sameLabel, ha, hc, hpa, hpc, hab.trans hbc]

/-! ### The last column of a name -/

/-- The cell of the last column whose label is written so. -/
def lastUnder (name : String) (pairs : List (Cell × Cell)) : Option Cell :=
  ((pairs.filter fun p => p.1.label = name).getLast?).map (·.2)

theorem lastUnder_cons (name : String) (p : Cell × Cell) (pairs : List (Cell × Cell)) :
    lastUnder name (p :: pairs) =
      (lastUnder name pairs).or (if p.1.label = name then some p.2 else none) := by
  unfold lastUnder
  by_cases hp : p.1.label = name
  · rw [List.filter_cons_of_pos (by simpa using hp), if_pos hp, List.getLast?_cons]
    cases (pairs.filter fun p => decide (p.1.label = name)).getLast? <;> rfl
  · rw [List.filter_cons_of_neg (by simpa using hp), if_neg hp, Option.or_none]

theorem isSome_lastUnder {pairs : List (Cell × Cell)} {p : Cell × Cell} (hp : p ∈ pairs)
    (hname : p.1.label = name) : (lastUnder name pairs).isSome := by
  rw [lastUnder, Option.isSome_map, Option.isSome_iff_ne_none, Ne, List.getLast?_eq_none_iff]
  exact List.ne_nil_of_mem (List.mem_filter.2 ⟨hp, decide_eq_true hname⟩)

variable {pairs : List (Cell × Cell)} {keep : Cell × Cell → Bool}

theorem lastUnder_eq_none (h : ∀ p ∈ pairs, p.1.label ≠ name) : lastUnder name pairs = none := by
  rw [lastUnder, List.filter_eq_nil_iff.2 fun p hp => by simpa using h p hp]
  rfl

/-- Pairs of other names can be left out. -/
theorem lastUnder_filter (h : ∀ p ∈ pairs, p.1.label = name → keep p) :
    lastUnder name (pairs.filter keep) = lastUnder name pairs := by
  have hfilter : (pairs.filter fun p => decide (p.1.label = name) && keep p) =
      pairs.filter fun p => p.1.label = name := by
    refine List.filter_congr fun p hp => ?_
    by_cases hname : p.1.label = name
    · rw [h p hp hname, Bool.and_true]
    · rw [decide_eq_false hname, Bool.false_and]
  rw [lastUnder, lastUnder, List.filter_filter, hfilter]

/-- So can pairs of the name with a later one that is kept. -/
theorem lastUnder_filter_of_later
    (hlater : ∀ p q, [p, q].Sublist pairs → p.1.label = name → q.1.label = name → keep p → keep q)
    (hkept : ∃ p ∈ pairs, p.1.label = name ∧ keep p) :
    lastUnder name (pairs.filter keep) = lastUnder name pairs := by
  induction pairs with
  | nil =>
    obtain ⟨p, hp, -⟩ := hkept
    cases hp
  | cons p pairs ih =>
    have hrest : ∀ q r, [q, r].Sublist pairs → q.1.label = name → r.1.label = name → keep q →
        keep r := fun q r hqr => hlater q r (hqr.cons p)
    by_cases hp : p.1.label = name
    · by_cases hkeep : keep p
      · -- from here on all are kept
        have hall : ∀ q ∈ pairs, q.1.label = name → keep q := fun q hq hname =>
          hlater p q (List.Sublist.cons_cons p (List.singleton_sublist.2 hq)) hp hname hkeep
        rw [List.filter_cons_of_pos hkeep, lastUnder_cons, lastUnder_cons, lastUnder_filter hall]
      · obtain ⟨q, hq, hname, hkeepq⟩ := hkept
        have hq : q ∈ pairs := (List.mem_cons.1 hq).resolve_left fun h => hkeep (h ▸ hkeepq)
        obtain ⟨c, hc⟩ := Option.isSome_iff_exists.1 (isSome_lastUnder hq hname)
        rw [List.filter_cons_of_neg hkeep, ih hrest ⟨q, hq, hname, hkeepq⟩, lastUnder_cons, hc]
        rfl
    · obtain ⟨q, hq, hname, hkeepq⟩ := hkept
      have hq : q ∈ pairs := (List.mem_cons.1 hq).resolve_left fun h => hp (h ▸ hname)
      have hpairs := ih hrest ⟨q, hq, hname, hkeepq⟩
      rw [lastUnder_cons, if_neg hp, Option.or_none, ← hpairs]
      by_cases hkeep : keep p
      · rw [List.filter_cons_of_pos hkeep, lastUnder_cons, if_neg hp, Option.or_none]
      · rw [List.filter_cons_of_neg hkeep]

/-! ### Labels that names tell apart -/

/-- Do the names of the labels tell as much as the labels?  Equal labels are written
alike, and of two equal ones there stands between them no other that is written like
them. -/
structure Distinguishes (labels : List Cell) : Prop where
  alike : WritesAlike labels
  apart : ∀ a b c, [a, b, c].Sublist labels → sameLabel a c → b.label = a.label → sameLabel a b

theorem Distinguishes.tail (h : Distinguishes (a :: labels)) : Distinguishes labels where
  alike := fun b hb c hc => h.alike b (List.mem_cons_of_mem a hb) c (List.mem_cons_of_mem a hc)
  apart := fun b c d hbcd => h.apart b c d (hbcd.cons a)

/-- Texts are told apart by their names. -/
theorem distinguishes_texts (names : List String) : Distinguishes (names.map .text) where
  alike := writesAlike_texts names
  apart := by
    intro a b c habc _ hlabel
    have htext : ∀ l ∈ [a, b, c], ∃ s, l = .text s := fun l hl => by
      obtain ⟨s, -, rfl⟩ := List.mem_map.1 (habc.subset hl)
      exact ⟨s, rfl⟩
    obtain ⟨s, rfl⟩ := htext a (by simp)
    obtain ⟨t, rfl⟩ := htext b (by simp)
    exact beq_iff_eq.2 hlabel.symm

theorem fieldLabels_sublist (labels : List Cell) : (fieldLabels labels).Sublist labels := by
  induction labels with
  | nil => exact .slnil
  | cons a labels ih => exact (List.filter_sublist.trans ih).cons_cons a

/-- Every label has one that stands for it. -/
theorem exists_fieldLabel (h : a ∈ labels) : ∃ f ∈ fieldLabels labels, f = a ∨ sameLabel f a := by
  induction labels with
  | nil => cases h
  | cons b labels ih =>
    rcases List.mem_cons.1 h with rfl | h
    · exact ⟨a, List.mem_cons_self, .inl rfl⟩
    obtain ⟨f, hf, hfa⟩ := ih h
    by_cases hbf : sameLabel b f
    · refine ⟨b, List.mem_cons_self, .inr ?_⟩
      rcases hfa with rfl | hfa
      · exact hbf
      · exact sameLabel_trans hbf hfa
    · refine ⟨f, List.mem_cons_of_mem b (List.mem_filter.2 ⟨hf, ?_⟩), hfa⟩
      rw [Bool.not_eq_true', Bool.eq_false_iff]
      exact hbf

theorem not_sameLabel_iff : (!sameLabel a b) = true ↔ ¬ sameLabel a b := by
  rw [Bool.not_eq_true', Bool.eq_false_iff]

theorem map_fst_byLabel_sublist (pairs : List (Cell × Cell)) :
    ((byLabel pairs).map (·.1)).Sublist (pairs.map (·.1)) := by
  rw [map_fst_byLabel]
  exact fieldLabels_sublist _

/-- A label that stands for itself stands behind all equal ones of its name. -/
theorem Distinguishes.later (h : Distinguishes (a :: pairs.map (·.1))) {p q : Cell × Cell}
    (hpq : [p, q].Sublist (byLabel pairs)) (hp : p.1.label = a.label)
    (hap : ¬ sameLabel a p.1) : ¬ sameLabel a q.1 := by
  have hpair : [p.1, q.1].Sublist (pairs.map (·.1)) :=
    (hpq.map Prod.fst).trans (map_fst_byLabel_sublist pairs)
  exact fun haq => hap (h.apart a p.1 q.1 (hpair.cons_cons a) haq hp)

/-- If no label of a label's name stands for itself beside it, it stands for all of
them. -/
theorem Distinguishes.sameLabel_iff (h : Distinguishes (a :: pairs.map (·.1)))
    (hnone : ∀ p ∈ byLabel pairs, p.1.label = a.label → sameLabel a p.1) {p : Cell × Cell}
    (hp : p ∈ pairs) : sameLabel a p.1 ↔ p.1.label = a.label := by
  have hmem : p.1 ∈ pairs.map (·.1) := List.mem_map_of_mem hp
  refine ⟨fun hap => (h.alike a List.mem_cons_self p.1 (List.mem_cons_of_mem a hmem) hap).symm,
    fun hlabel => ?_⟩
  obtain ⟨f, hf, hfp⟩ := exists_fieldLabel hmem
  have hflabel : f.label = a.label := by
    rcases hfp with rfl | hfp
    · exact hlabel
    · exact (h.tail.alike f ((fieldLabels_sublist _).subset hf) p.1 hmem hfp).trans hlabel
  rw [← map_fst_byLabel] at hf
  obtain ⟨q, hq, rfl⟩ := List.mem_map.1 hf
  have haq := hnone q hq hflabel
  rcases hfp with hqp | hqp
  · exact hqp ▸ haq
  · exact sameLabel_trans haq hqp

/-- Where names tell the labels apart, the last column of a name is the one that
counts. -/
theorem lastUnder_byLabel (h : Distinguishes (pairs.map (·.1))) (name : String) :
    lastUnder name (byLabel pairs) = lastUnder name pairs := by
  induction pairs with
  | nil => rfl
  | cons p pairs ih =>
    rw [byLabel, lastUnder_cons, lastUnder_cons]
    by_cases hp : p.1.label = name
    · rw [if_pos hp, if_pos hp]
      by_cases hkept : ∃ q ∈ byLabel pairs, q.1.label = name ∧ (!sameLabel p.1 q.1) = true
      · -- a label of the name stands for itself, and so do all later ones
        have hlater : ∀ q r, [q, r].Sublist (byLabel pairs) → q.1.label = name →
            r.1.label = name → (!sameLabel p.1 q.1) = true → (!sameLabel p.1 r.1) = true :=
          fun q r hqr hq _ hpq =>
            not_sameLabel_iff.2 (h.later hqr (hq.trans hp.symm) (not_sameLabel_iff.1 hpq))
        rw [lastUnder_filter_of_later hlater hkept, ← ih h.tail]
        obtain ⟨q, hq, hname, -⟩ := hkept
        obtain ⟨c, hc⟩ := Option.isSome_iff_exists.1 (isSome_lastUnder hq hname)
        rw [hc]
        rfl
      · -- the first label stands for all columns of the name
        have hnone : ∀ q ∈ byLabel pairs, q.1.label = p.1.label → sameLabel p.1 q.1 := by
          intro q hq hlabel
          by_contra hpq
          exact hkept ⟨q, hq, hlabel.trans hp, not_sameLabel_iff.2 hpq⟩
        have hsame : (pairs.filter fun q => sameLabel p.1 q.1) =
            pairs.filter fun q => q.1.label = name := by
          refine List.filter_congr fun q hq => ?_
          rw [Bool.eq_iff_iff, h.sameLabel_iff hnone hq, hp, decide_eq_true_iff]
        have hrest : ∀ q ∈ (byLabel pairs).filter fun q => !sameLabel p.1 q.1,
            q.1.label ≠ name := by
          intro q hq hlabel
          obtain ⟨hq, hpq⟩ := List.mem_filter.1 hq
          exact hkept ⟨q, hq, hlabel, hpq⟩
        rw [lastUnder_eq_none hrest, hsame, lastUnder]
        cases (pairs.filter fun q => decide (q.1.label = name)).getLast? <;> rfl
    · have hall : ∀ q ∈ byLabel pairs, q.1.label = name → (!sameLabel p.1 q.1) = true := by
        intro q hq hname
        have hmem := (map_fst_byLabel_sublist pairs).subset (List.mem_map_of_mem hq)
        rw [not_sameLabel_iff]
        exact fun hpq => hp ((h.alike p.1 List.mem_cons_self q.1
          (List.mem_cons_of_mem _ hmem) hpq).trans hname)
      rw [if_neg hp, if_neg hp, lastUnder_filter hall, ih h.tail]

/-! ### Stored fields -/

/-- Do the fields hold what comes back for the row, under the labels?  Equal labels
are merged, and then each name has the cell of its last column.  If names tell the
labels apart, that is the last column of the name in the table. -/
structure Carries (labels row : List Cell) (fields : Fields) : Prop where
  nodup : fields.names.Nodup
  names : ∀ name ∈ fields.names, name ∈ labels.map Cell.label
  merged : ∀ name,
    Option.Rel Cell.ComesBack (lastUnder name (byLabel (labels.zip row))) (fields.lookup name)
  cells : Distinguishes labels → ∀ name,
    Option.Rel Cell.ComesBack (lastUnder name (labels.zip row)) (fields.lookup name)

/-- What a field holds, from the cell of the last column of its name. -/
theorem Carries.lookup_eq {fields : Fields} {v : Cell} (h : Carries labels row fields)
    (hlabels : Distinguishes labels) (hc : lastUnder name (labels.zip row) = some c)
    (hv : c.toStored = .ok v) : fields.lookup name = some v.bare := by
  have hback := h.cells hlabels name
  rw [hc] at hback
  generalize fields.lookup name = x at hback ⊢
  cases hback with
  | some hw =>
    obtain ⟨v', hv', rfl⟩ := hw
    cases hv.symm.trans hv'
    rfl

/-- Values that are put together by name, and what they have been made of. -/
theorem rel_lookup_ofPairs {R : Cell → Cell → Prop} {qs : Fields}
    (h : List.Forall₂ (fun p q => q.1 = p.1.label ∧ R p.2 q.2) pairs qs) (name : String) :
    Option.Rel R (lastUnder name pairs) ((Named.ofPairs qs).lookup name) := by
  induction h with
  | nil => exact .none
  | @cons p q pairs qs hpq _ ih =>
    obtain ⟨hname, hR⟩ := hpq
    rw [lastUnder_cons, Named.lookup_ofPairs_cons, hname]
    generalize lastUnder name pairs = x at ih ⊢
    generalize (Named.ofPairs qs).lookup name = y at ih ⊢
    cases ih with
    | some hR' => exact .some hR'
    | none =>
      by_cases hp : p.1.label = name
      · rw [if_pos hp, if_pos hp.symm]
        exact .some hR
      · rw [if_neg hp, if_neg (Ne.symm hp)]
        exact .none

/-- Values that are written, and what they have been before. -/
theorem rel_lookup_written {ms ws : Fields} (h : Cell.writtenMembers? ms = some ws)
    (name : String) :
    Option.Rel (fun v w => v.written? = some w) (ms.lookup name) (ws.lookup name) := by
  induction ms generalizing ws with
  | nil =>
    cases h
    exact .none
  | cons m ms ih =>
    rw [Cell.writtenMembers?] at h
    obtain ⟨w, hw, h⟩ := Option.bind_eq_some_iff.1 h
    obtain ⟨ws', hws, h⟩ := Option.bind_eq_some_iff.1 h
    cases h
    obtain ⟨key, c⟩ := m
    rw [Named.lookup_cons, Named.lookup_cons]
    by_cases hname : name = key
    · rw [if_pos hname, if_pos hname]
      exact .some hw
    · rw [if_neg hname, if_neg hname]
      exact ih hws

theorem carries_of_fieldsOf {named fields : Fields} (hnamed : fieldsOf labels row = .ok named)
    (hwritten : Cell.writtenMembers? named = some fields) (hwidth : row.length = labels.length) :
    Carries labels row fields := by
  have hlabels : (labels.zip row).map (·.1) = labels := List.map_fst_zip (Nat.le_of_eq hwidth.symm)
  obtain ⟨qs, hqs, h⟩ := Outcome.bind_eq_ok.1 hnamed
  cases h
  have hrel : List.Forall₂ (fun p q => q.1 = p.1.label ∧ p.2.toStored = .ok q.2)
      (byLabel (labels.zip row)) qs := (Outcome.mapM_eq_ok.1 hqs).imp fun p q hq => by
    obtain ⟨v, hv, rfl⟩ := Outcome.map_eq_ok.1 hq
    exact ⟨rfl, hv⟩
  have hmerged : ∀ name, Option.Rel Cell.ComesBack (lastUnder name (byLabel (labels.zip row)))
      (fields.lookup name) := by
    intro name
    have hstored := rel_lookup_ofPairs (R := fun c v => c.toStored = .ok v) hrel name
    have hback := rel_lookup_written hwritten name
    generalize lastUnder name (byLabel (labels.zip row)) = x at hstored ⊢
    generalize (Named.ofPairs qs).lookup name = y at hstored hback
    generalize fields.lookup name = z at hback ⊢
    cases hstored with
    | none =>
      cases hback
      exact .none
    | some hv =>
      cases hback with
      | some hw => exact .some ⟨_, hv, Cell.bare_of_written _ hw⟩
  refine ⟨?_, fun name hname => ?_, hmerged, fun hlabel name => ?_⟩
  · rw [Cell.names_written hwritten]
    exact Named.nodup_names_ofPairs qs
  · rw [Cell.names_written hwritten, mem_names_fieldsOf hnamed hwidth] at hname
    obtain ⟨l, hl, rfl⟩ := List.mem_map.1 hname
    exact List.mem_map_of_mem (mem_of_mem_fieldLabels hl)
  · rw [← lastUnder_byLabel (hlabels.symm ▸ hlabel)]
    exact hmerged name

/-- The rows of a table with a column are stored with their cells, row by row. -/
theorem carries_of_stores {u : Upload} {fields : List Fields} (h : u.Stores fields)
    (hlabels : u.labels ≠ []) :
    ∃ cells, u.cells = .ok cells ∧ List.Forall₂ (Carries u.labels) cells fields := by
  obtain ⟨cells, raw, hcells, hnamed, hstored⟩ := h
  rw [Upload.fields, if_neg (by rwa [List.isEmpty_iff])] at hnamed
  have hwidth := (cells_eq_ok hcells).2
  have hwritten := Outcome.forall₂_of_mapM_some hstored
  have hraw := Outcome.mapM_eq_ok.1 hnamed
  refine ⟨cells, hcells, ?_⟩
  clear hcells hnamed hstored
  induction hraw generalizing fields with
  | nil =>
    cases hwritten
    exact .nil
  | cons hrow _ ih =>
    cases hwritten with
    | cons hfields hrest =>
      obtain ⟨hone, hall⟩ := List.forall_mem_cons.1 hwidth
      exact .cons (carries_of_fieldsOf hrow hfields hone) (ih hall hrest)

end Upload

end Gridbook
