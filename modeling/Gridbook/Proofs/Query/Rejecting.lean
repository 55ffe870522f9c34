/-
Gridbook/Proofs/Query/Rejecting.lean

Which requests are rejected.  A request is rejected when something is wrong with it
that is told in so many words; what fails in any other way is not a rejection.

Main statements: the problems of filters are those of the filters that are turned down,
one by one (`Filter.forall₂_of_problems`), and where its number, its size, its order and
its filters are in order, a page is not rejected (`not_rejected_page`).
-/
import Gridbook.Proofs.Outcome
import Gridbook.Query.Rows

namespace Gridbook

variable {α β : Type}

/-! ### Rejections -/

/-- Is the outcome the rejection of a request? -/
def Rejected (x : Except Error α) : Prop :=
  ∃ problems headline, x = .error (.rejected problems headline)

theorem not_rejected_ok (a : α) : ¬ Rejected (.ok a) :=
  fun ⟨_, _, h⟩ => nomatch h

theorem rejected_bind_iff {x : Except Error α} {f : α → Except Error β} :
    Rejected (x >>= f) ↔ Rejected x ∨ ∃ a, x = .ok a ∧ Rejected (f a) := by
  constructor
  · rintro ⟨problems, headline, h⟩
    cases x with
    | error e =>
      cases h
      exact .inl ⟨problems, headline, rfl⟩
    | ok a => exact .inr ⟨a, rfl, problems, headline, h⟩
  · rintro (⟨problems, headline, rfl⟩ | ⟨a, rfl, h⟩)
    · exact ⟨problems, headline, rfl⟩
    · exact h

theorem not_rejected_bind {x : Except Error α} {f : α → Except Error β} (hx : ¬ Rejected x)
    (hf : ∀ a, x = .ok a → ¬ Rejected (f a)) : ¬ Rejected (x >>= f) := by
  rw [rejected_bind_iff]
  rintro (h | ⟨a, ha, h⟩)
  · exact hx h
  · exact hf a ha h

theorem not_rejected_map {x : Except Error α} {f : α → β} (hx : ¬ Rejected x) :
    ¬ Rejected (x.map f) := by
  rintro ⟨problems, headline, h⟩
  cases x with
  | error e =>
    cases h
    exact hx ⟨problems, headline, rfl⟩
  | ok a => cases h

theorem not_rejected_mapM {f : α → Except Error β} {as : List α}
    (h : ∀ a ∈ as, ¬ Rejected (f a)) : ¬ Rejected (as.mapM f) := by
  induction as with
  | nil => exact not_rejected_ok []
  | cons a as ih =>
    rw [List.mapM_cons]
    refine not_rejected_bind (h a List.mem_cons_self) fun b _ => ?_
    refine not_rejected_bind (ih fun c hc => h c (List.mem_cons_of_mem a hc)) fun bs _ => ?_
    exact not_rejected_ok (b :: bs)

theorem not_rejected_ofConversion (x : Except Cell.Fault α) :
    ¬ Rejected (Error.ofConversion x) := by
  rintro ⟨problems, headline, h⟩
  cases x <;> cases h

theorem Store.not_rejected_during {activity : Activity} (x : Except Failure α) :
    ¬ Rejected (during activity x) := by
  rintro ⟨problems, headline, h⟩
  rcases x with (_ | _) | a <;> cases h

/-! ### Filters and pages -/

namespace Filter

variable {f : Filter}

/-- A filter is turned down for one problem, which is about its parts. -/
theorem problem_of_check {ps : List Problem} {headline : String}
    (h : f.check = .error (.rejected ps headline)) :
    ∃ p ∈ [.filterColumnRequired, .unsupportedOperator f.operator,
        .filterValueNotNumeric f.column f.operator, .filterValueRequired f.column],
      f.check = .error (.problem p) ∧ ps = [p] := by
  rw [h]
  unfold check at h
  split at h
  · cases h
    exact ⟨.filterColumnRequired, by simp, rfl, rfl⟩
  split at h
  · cases h
    exact ⟨.unsupportedOperator f.operator, by simp, rfl, rfl⟩
  split at h
  · unfold bound at h
    split at h
    · cases h
    · cases h
    · cases h
      exact ⟨.filterValueNotNumeric f.column f.operator, by simp, rfl, rfl⟩
  · split at h
    · cases h
      exact ⟨.filterValueRequired f.column, by simp, rfl, rfl⟩
    · cases h

/-- The problems of filters are those of the filters that are turned down, one by one. -/
theorem forall₂_of_problems {fs : List Filter} {ps : List Problem} (h : problems fs = .ok ps) :
    List.Forall₂ (fun f p => f.check = .error (.problem p)) (fs.filter (!·.check.isOk)) ps := by
  induction fs generalizing ps with
  | nil =>
    cases h
    exact .nil
  | cons f fs ih =>
    rw [problems] at h
    split at h
    · next valid hf =>
      rw [List.filter_cons_of_neg (by rw [hf]; exact Bool.false_ne_true)]
      exact ih h
    · next qs headline hf =>
      obtain ⟨rest, hrest, rfl⟩ := Outcome.map_eq_ok.1 h
      obtain ⟨p, -, hp, rfl⟩ := problem_of_check hf
      rw [List.filter_cons_of_pos (by rw [hf]; rfl)]
      exact .cons hp (ih hrest)
    · cases h

/-- Where no filter is turned down, all have passed their check. -/
theorem eq_nil_iff_of_forall₂ {fs : List Filter} {ps : List Problem}
    (h : List.Forall₂ (fun f p => f.check = .error (.problem p))
      (fs.filter (!·.check.isOk)) ps) :
    ps = [] ↔ ∀ f ∈ fs, ∃ valid, f.check = .ok valid := by
  have hpassed : ∀ f : Filter, (!f.check.isOk) = true ↔ ¬ ∃ valid, f.check = .ok valid := by
    intro f
    cases f.check with
    | ok valid => simp [Except.isOk, Except.toBool]
    | error e => simp [Except.isOk, Except.toBool]
  rw [← List.length_eq_zero_iff, ← h.length_eq, List.length_eq_zero_iff, List.filter_eq_nil_iff]
  simp only [hpassed, not_not]

theorem exists_check_of_problems {fs : List Filter} (h : problems fs = .ok []) :
    ∀ f ∈ fs, ∃ valid, f.check = .ok valid :=
  (eq_nil_iff_of_forall₂ (forall₂_of_problems h)).1 rfl

end Filter

namespace Store

variable {s : Store}

theorem not_rejected_comparisons (sel : Selection) : ¬ Rejected sel.comparisons := by
  refine not_rejected_mapM fun f _ => ?_
  split
  · split
    · exact not_rejected_ok _
    · rintro ⟨_, _, ⟨⟩⟩
  · rintro ⟨_, _, ⟨⟩⟩

theorem not_rejected_count [Reader] (sel : Selection) : ¬ Rejected (s.count sel) :=
  not_rejected_bind (not_rejected_comparisons sel) fun _ _ => not_rejected_during _

/-- A page is rejected for what it is asked for only. -/
theorem not_rejected_page [Reader] {sel : Selection} {sort : Option Sorting} {order : Order}
    {number size : Int} (hfilters : ∀ f ∈ sel.filters, ∃ valid, f.check = .ok valid)
    (horder : Sorting.order sort = .ok order) (hnumber : 1 ≤ number) (hsize : 0 < size) :
    ¬ Rejected (s.page sel sort (some number) (some size)) := by
  obtain ⟨valid, hvalid⟩ := Outcome.exists_mapM_eq_ok hfilters
  have hneeded : ∀ n : Int, ¬ Rejected (Error.needed (some n)) := fun n => not_rejected_ok n
  refine not_rejected_bind (hneeded number) fun n hn => ?_
  cases hn
  rw [if_neg (Int.not_lt.2 hnumber)]
  refine not_rejected_bind (hneeded size) fun n hn => ?_
  cases hn
  rw [if_neg (Int.not_le.2 hsize)]
  refine not_rejected_bind (horder ▸ not_rejected_ok order) fun o ho => ?_
  refine not_rejected_bind (not_rejected_bind (hvalid ▸ not_rejected_ok valid) fun _ _ =>
    not_rejected_ok _) fun sel _ => ?_
  refine not_rejected_bind ?_ fun _ _ => not_rejected_ok _
  refine not_rejected_bind (not_rejected_comparisons sel) fun _ _ => ?_
  refine not_rejected_bind (hneeded number) fun _ _ => ?_
  refine not_rejected_bind (hneeded size) fun _ _ => ?_
  refine not_rejected_bind (not_rejected_during _) fun _ _ => ?_
  exact not_rejected_bind (not_rejected_count sel) fun _ _ => not_rejected_ok _

end Store

end Gridbook
