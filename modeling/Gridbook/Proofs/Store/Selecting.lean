/-
Gridbook/Proofs/Store/Selecting.lean

Which rows a selection asks for: those that it covers, on which every filter
holds and every required column has a value.  Filters mean what the conditions
mean that the store makes of them.

Main statement: the selected rows are the matching ones, each once and as they
stand in the store (`mem_selected`, `selected_sublist`).
-/
import Gridbook.Proofs.Outcome
import Gridbook.Store.Read

namespace Gridbook

/-- Does the filter hold on the row? -/
def Filter.Holds [Reader] (f : Filter) (r : Row) : Prop :=
  ∃ op c, Comparison.ofName? f.operator = some op ∧ Condition.ofFilter f op = .ok c ∧
    c.holds r.fields = .ok true

/-- Does the selection ask for the row? -/
structure Selection.Matches [Reader] (sel : Selection) (r : Row) : Prop where
  covers : sel.covers r
  filters : ∀ f ∈ sel.filters, f.Holds r
  required : ∀ column ∈ sel.required, (Condition.present column).holds r.fields = .ok true

/-- A row on which a condition is tested can be looked into. -/
theorem Condition.wellFormed_of_holds [Reader] {c : Condition} {fields : Fields} {b : Bool}
    (h : c.holds fields = .ok b) : Native.wellFormedMembers fields := by
  obtain ⟨v, hv, -⟩ := Outcome.bind_eq_ok.1 h
  by_contra hmalformed
  rw [Native.extract, if_neg hmalformed] at hv
  cases hv

namespace Store

variable {s : Store} {sel : Selection} {ops : List (Filter × Comparison)}
  {conds : List Condition} {rows : List Row}

theorem allHold_eq_true [Reader] {fields : Fields} :
    Condition.allHold fields conds = .ok true ↔ ∀ c ∈ conds, c.holds fields = .ok true := by
  induction conds with
  | nil => exact ⟨fun _ c hc => absurd hc List.not_mem_nil, fun _ => rfl⟩
  | cons c conds ih =>
    rw [Condition.allHold, Outcome.bind_eq_ok, List.forall_mem_cons]
    constructor
    · rintro ⟨b, hb, h⟩
      cases b with
      | false => cases h
      | true => exact ⟨hb, ih.1 h⟩
    · rintro ⟨hc, hconds⟩
      exact ⟨true, hc, ih.2 hconds⟩

/-- The rows that meet all conditions are a part of the rows. -/
theorem meeting_sublist [Reader] {out : List Row} (h : meeting conds rows = .ok out) :
    out.Sublist rows := by
  induction rows generalizing out with
  | nil =>
    cases h
    exact List.Sublist.slnil
  | cons r rows ih =>
    obtain ⟨b, -, h⟩ := Outcome.bind_eq_ok.1 h
    obtain ⟨rest, hrest, h⟩ := Outcome.bind_eq_ok.1 h
    cases h
    cases b with
    | false => exact (ih hrest).cons r
    | true => exact (ih hrest).cons_cons r

/-- The conditions are tested on every row, in order, up to the first that fails. -/
theorem exists_allHold_of_meeting [Reader] {out : List Row} (h : meeting conds rows = .ok out) :
    ∀ r ∈ rows, ∃ b, Condition.allHold r.fields conds = .ok b := by
  induction rows generalizing out with
  | nil => exact fun r hr => absurd hr List.not_mem_nil
  | cons r rows ih =>
    obtain ⟨b, hb, h⟩ := Outcome.bind_eq_ok.1 h
    obtain ⟨rest, hrest, -⟩ := Outcome.bind_eq_ok.1 h
    exact List.forall_mem_cons.2 ⟨⟨b, hb⟩, ih hrest⟩

theorem mem_meeting [Reader] {out : List Row} (h : meeting conds rows = .ok out) (r : Row) :
    r ∈ out ↔ r ∈ rows ∧ ∀ c ∈ conds, c.holds r.fields = .ok true := by
  induction rows generalizing out with
  | nil =>
    cases h
    simp
  | cons a rows ih =>
    obtain ⟨b, hb, h⟩ := Outcome.bind_eq_ok.1 h
    obtain ⟨rest, hrest, h⟩ := Outcome.bind_eq_ok.1 h
    cases h
    rw [List.mem_cons]
    cases b with
    | false =>
      -- the row itself does not meet them, so it is none of those that do
      have hnot : r = a → ¬ ∀ c ∈ conds, c.holds r.fields = .ok true := by
        rintro rfl hall
        rw [allHold_eq_true.2 hall] at hb
        cases hb
      rw [if_neg Bool.false_ne_true, ih hrest]
      exact ⟨fun hr => ⟨.inr hr.1, hr.2⟩,
        fun hr => ⟨hr.1.resolve_left fun ha => hnot ha hr.2, hr.2⟩⟩
    | true =>
      rw [if_pos rfl, List.mem_cons, ih hrest]
      constructor
      · rintro (rfl | hr)
        · exact ⟨.inl rfl, allHold_eq_true.1 hb⟩
        · exact ⟨.inr hr.1, hr.2⟩
      · rintro ⟨rfl | hr, hall⟩
        · exact .inl rfl
        · exact .inr ⟨hr, hall⟩

theorem comparisons_eq_ok (h : sel.comparisons = .ok ops) :
    List.Forall₂ (fun f p => p.1 = f ∧ Comparison.ofName? f.operator = some p.2)
      sel.filters ops := by
  refine (Outcome.mapM_eq_ok.1 h).imp fun f p hp => ?_
  split at hp
  · next op hop =>
    split at hp
    · cases hp
      exact ⟨rfl, hop⟩
    · cases hp
  · cases hp

theorem conditions_eq_ok (h : s.conditions sel ops = .ok conds) :
    ∃ cs, List.Forall₂ (fun p c => Condition.ofFilter p.1 p.2 = .ok c) ops cs ∧
      conds = cs ++ sel.required.map Condition.present := by
  unfold conditions at h
  dsimp only at h
  split at h
  · cases h
  · obtain ⟨_, -, h⟩ := Outcome.bind_eq_ok.1 h
    obtain ⟨cs, hcs, h⟩ := Outcome.bind_eq_ok.1 h
    cases h
    exact ⟨cs, Outcome.mapM_eq_ok.1 hcs, rfl⟩

/-- The conditions of the filters hold where the filters do. -/
theorem filters_hold_iff [Reader] {fs : List Filter} {cs : List Condition}
    (hops : List.Forall₂ (fun f p => p.1 = f ∧ Comparison.ofName? f.operator = some p.2) fs ops)
    (hcs : List.Forall₂ (fun p c => Condition.ofFilter p.1 p.2 = .ok c) ops cs) (r : Row) :
    (∀ c ∈ cs, c.holds r.fields = .ok true) ↔ ∀ f ∈ fs, f.Holds r := by
  induction hops generalizing cs with
  | nil =>
    cases hcs
    simp
  | @cons f p fs ops hp _ ih =>
    obtain ⟨rfl, hop⟩ := hp
    rcases hcs with _ | ⟨hc, hcs⟩
    rw [List.forall_mem_cons, List.forall_mem_cons, ih hcs]
    refine and_congr_left fun _ => ⟨fun h => ⟨p.2, _, hop, hc, h⟩, ?_⟩
    rintro ⟨op, c, hop', hc', h⟩
    cases hop.symm.trans hop'
    cases hc.symm.trans hc'
    exact h

theorem selected_sublist [Reader] (h : s.selected sel conds = .ok rows) : rows.Sublist s.rows :=
  (meeting_sublist h).trans List.filter_sublist

/-- Rows on which any condition has been tested can be looked into. -/
theorem wellFormed_of_selected [Reader] (h : s.selected sel conds = .ok rows)
    (hconds : conds ≠ []) :
    ∀ r ∈ s.rows, sel.covers r → Native.wellFormedMembers r.fields := by
  intro r hr hcovers
  obtain ⟨b, hb⟩ := exists_allHold_of_meeting h r (List.mem_filter.2 ⟨hr, hcovers⟩)
  cases conds with
  | nil => exact absurd rfl hconds
  | cons c conds =>
    obtain ⟨_, hc, -⟩ := Outcome.bind_eq_ok.1 hb
    exact Condition.wellFormed_of_holds hc

theorem mem_selected [Reader] (hops : sel.comparisons = .ok ops)
    (hconds : s.conditions sel ops = .ok conds) (h : s.selected sel conds = .ok rows) (r : Row) :
    r ∈ rows ↔ r ∈ s.rows ∧ sel.Matches r := by
  obtain ⟨cs, hcs, rfl⟩ := conditions_eq_ok hconds
  rw [mem_meeting h, List.mem_filter, and_assoc, List.forall_mem_append,
    filters_hold_iff (comparisons_eq_ok hops) hcs, List.forall_mem_map]
  exact and_congr_right fun _ =>
    ⟨fun hr => ⟨hr.1, hr.2.1, hr.2.2⟩, fun hr => ⟨hr.covers, hr.filters, hr.required⟩⟩

end Store

end Gridbook
