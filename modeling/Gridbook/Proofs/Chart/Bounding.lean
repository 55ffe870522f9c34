/-
Gridbook/Proofs/Chart/Bounding.lean

Does bounding a request by its number of rows change whether it is rejected?  A
request is rejected by its check alone (`rejected_generate_iff`), for what a passed
check leads to fails in other ways.  The check asks of a limit only that it is
positive, as all bounds are, and of the combination only that it is known.

Two things are lost.  A limit of zero is no limit to the bounding, which puts a
sound one in its place.  And the bounding counts rows before anything is checked,
so that a count may fail first.

Main statement: `rejected_generateOptimized_iff`, the bounded request is rejected
exactly where the request is, these two cases apart.
-/
import Gridbook.Chart.Build
import Gridbook.Proofs.Query.Rejecting

namespace Gridbook

/-! ### Sources -/

/-- A source that rejects no reading whose filters, order and limit are in order. -/
def ChartSource.Obliging (source : ChartSource) : Prop :=
  ∀ (p : Plotted) (sort : Option Sorting) (limit : Int), Filter.problems p.filters = .ok [] →
    (∃ order, Sorting.order sort = .ok order) → 0 < limit → ¬ Rejected (source.rows p sort limit)

/-- A source that has the same answers to all questions. -/
def ChartSource.fixed (columns : List Column) (count : Except Error Int)
    (records : List Fields) : ChartSource where
  columns _ := .ok columns
  count _ := count
  rows _ _ limit := .ok (upTo (some limit) records)

theorem ChartSource.obliging_fixed (columns : List Column) (count : Except Error Int)
    (records : List Fields) : (fixed columns count records).Obliging :=
  fun _ _ _ _ _ _ => not_rejected_ok _

namespace Store

/-- An owner's data is obliging. -/
theorem obliging_chartSource [Reader] (s : Store) (owner : Ident) :
    (s.chartSource owner).Obliging := by
  rintro p sort limit hfilters ⟨order, horder⟩ hlimit
  exact not_rejected_map
    (not_rejected_page (Filter.exists_check_of_problems hfilters) horder (Int.le_refl 1) hlimit)

end Store

/-! ### Rejected charts -/

namespace ChartRequest

variable {r : ChartRequest} {source : ChartSource}

/-- A line is scanned in the order of its x, unless the name of x stands for the places;
all else is scanned by the places. -/
theorem order_scanOrder (r : ChartRequest) :
    Sorting.order r.scanOrder =
      .ok ⟨if r.isLine then r.xColumn.filter (· ∉ placeKeys) else none, false⟩ := by
  unfold scanOrder
  by_cases hline : r.isLine
  · have hword : ∀ column, Sorting.word ⟨column, some "asc"⟩ = "asc" := fun _ =>
      (by decide +kernel : Sorting.word ⟨none, some "asc"⟩ = "asc")
    rw [if_pos hline, if_pos hline]
    exact if_pos (hword r.xColumn)
  · rw [if_neg hline, if_neg hline]
    rfl

/-- All that is wrong with a request before its rows are counted. -/
def problemsGiven (r : ChartRequest) (filterProblems : List Problem) (columns : List Column) :
    List Problem :=
  r.formProblems ++ filterProblems ++ r.columnProblems columns

/-- A verdict lists the problems of a request, or has counted its rows. -/
theorem validate_cases {verdict : ChartVerdict}
    (h : r.validate source = .ok verdict) :
    ∃ filters columns, Filter.problems r.filters = .ok filters ∧
      source.columns r.dataset = .ok columns ∧
      (r.problemsGiven filters columns ≠ [] ∧
          verdict.problems = r.problemsGiven filters columns ∨
        r.problemsGiven filters columns = [] ∧ ∃ n, source.count r.plotted = .ok n ∧
          verdict.problems = problemIf (n = 0) .noData) := by
  obtain ⟨filters, hfilters, h⟩ := Outcome.bind_eq_ok.1 h
  obtain ⟨columns, hcolumns, h⟩ := Outcome.bind_eq_ok.1 h
  refine ⟨filters, columns, hfilters, hcolumns, ?_⟩
  dsimp only at h
  split at h
  · next hnone =>
    obtain ⟨n, hn, h⟩ := Outcome.bind_eq_ok.1 h
    cases h
    exact .inr ⟨List.isEmpty_iff.1 hnone, n, hn, rfl⟩
  · next hsome =>
    cases h
    exact .inl ⟨mt List.isEmpty_iff.2 hsome, rfl⟩

/-- A check that is passed has found neither a problem of the request's form nor one
of its filters. -/
theorem validate_valid {v : ChartVerdict} (h : r.validate source = .ok v) (hv : v.isValid) :
    r.formProblems = [] ∧ Filter.problems r.filters = .ok [] := by
  obtain ⟨filters, columns, hfilters, -, ⟨hsome, hgiven⟩ | ⟨hnone, -⟩⟩ := validate_cases h
  · exact absurd (hgiven.symm.trans (List.isEmpty_iff.1 hv)) hsome
  · obtain ⟨hsound, -⟩ := List.append_eq_nil_iff.1 hnone
    obtain ⟨hform, rfl⟩ := List.append_eq_nil_iff.1 hsound
    exact ⟨hform, hfilters⟩

theorem problemIf_eq_nil_iff {b : Bool} {p : Problem} : problemIf b p = [] ↔ b = false := by
  cases b <;> simp [problemIf]

/-- In a form without problems the way of combining is known, and a limit is
positive. -/
theorem of_formProblems_eq_nil (h : r.formProblems = []) :
    (∀ name ∈ Form.given r.aggregation, (Aggregation.ofName? name).isSome) ∧
      ∀ n ∈ r.limit, 0 < n := by
  unfold formProblems at h
  simp only [List.append_eq_nil_iff, problemIf_eq_nil_iff] at h
  obtain ⟨⟨-, haggregation⟩, hlimit⟩ := h
  refine ⟨fun name hname => ?_, fun n hn => ?_⟩
  · rw [Option.mem_def.1 hname] at haggregation
    exact Option.isSome_iff_ne_none.2 fun hnone => by simp [hnone] at haggregation
  · rw [Option.mem_def.1 hn] at hlimit
    exact Int.not_le.1 (of_decide_eq_false hlimit)

theorem scanLimit_pos (h : ∀ n ∈ r.limit, 0 < n) : 0 < r.scanLimit := by
  unfold scanLimit
  cases hlimit : r.limit with
  | none => exact (by decide : (0 : Int) < defaultScan)
  | some n =>
    have hpos := h n hlimit
    rw [Option.filter_some, if_pos (decide_eq_true (Int.ne_of_gt hpos))]
    exact hpos

theorem not_rejected_ofFields? (fields : Fields) : ¬ Rejected (Point.ofFields? r fields) := by
  rintro ⟨_, _, h⟩
  unfold Point.ofFields? at h
  dsimp only at h
  split at h
  · cases h
  · split at h <;> cases h

theorem not_rejected_scan (hsource : source.Obliging) (hform : r.formProblems = [])
    (hfilters : Filter.problems r.filters = .ok []) : ¬ Rejected (r.scan source) := by
  have hlimit : 0 < r.scanLimit := scanLimit_pos (of_formProblems_eq_nil hform).2
  refine not_rejected_bind (hsource _ _ _ hfilters ⟨_, r.order_scanOrder⟩ hlimit) fun rows _ => ?_
  exact not_rejected_bind (not_rejected_mapM fun fields _ => not_rejected_ofFields? fields)
    fun _ _ => not_rejected_ok _

theorem not_rejected_points (a : Aggregation) (grouped : Bool) (ps : List Point) :
    ¬ Rejected (a.points grouped ps) := by
  refine not_rejected_bind (not_rejected_mapM fun p _ =>
    not_rejected_map (not_rejected_ofConversion _)) fun valued _ => ?_
  split
  · rintro ⟨_, _, ⟨⟩⟩
  · exact not_rejected_ok _

theorem not_rejected_arranged (hform : r.formProblems = []) (ps : List Point) :
    ¬ Rejected (r.arranged ps) := by
  have hordered : ∀ combined, ¬ Rejected (if r.isLine then
      Error.ofConversion (Point.sortByX combined) else .ok combined) := fun combined => by
    split
    · exact not_rejected_ofConversion _
    · exact not_rejected_ok combined
  unfold arranged
  dsimp only
  split
  · next name hname =>
    obtain ⟨a, ha⟩ := Option.isSome_iff_exists.1 ((of_formProblems_eq_nil hform).1 name hname)
    refine not_rejected_bind ?_ fun combined _ => hordered combined
    rw [Aggregation.pointsByName, ha]
    exact not_rejected_points a _ ps
  · exact hordered ps

theorem not_rejected_real (c : Cell) : ¬ Rejected (Form.real c) := by
  rintro ⟨_, _, h⟩
  unfold Form.real at h
  split at h
  · cases h
  · split at h <;> cases h
  · split at h <;> cases h
  · cases h

theorem not_rejected_dataset (isLine : Bool) (label fill line : String) (ps : List Point) :
    ¬ Rejected (Series.dataset isLine label fill line ps) :=
  not_rejected_bind (not_rejected_mapM fun _ _ => not_rejected_map (not_rejected_real _))
    fun _ _ => not_rejected_ok _

theorem not_rejected_xLabels (ps : List Point) : ¬ Rejected (Series.xLabels ps) :=
  not_rejected_mapM fun _ _ => not_rejected_ofConversion _

theorem not_rejected_ofPoints (ps : List Point) : ¬ Rejected (Series.ofPoints r ps) := by
  unfold Series.ofPoints
  split
  · refine not_rejected_bind ?_ fun _ _ =>
      not_rejected_bind (not_rejected_xLabels ps) fun _ _ => not_rejected_ok _
    unfold Series.grouped
    split
    · rintro ⟨_, _, ⟨⟩⟩
    · exact not_rejected_mapM fun _ _ => not_rejected_dataset _ _ _ _ _
  · exact not_rejected_bind (not_rejected_dataset _ _ _ _ _) fun _ _ =>
      not_rejected_bind (not_rejected_xLabels ps) fun _ _ => not_rejected_ok _

/-- Does the check of a request turn it down? -/
def Refused (r : ChartRequest) (source : ChartSource) : Prop :=
  Rejected (r.validate source) ∨ ∃ v, r.validate source = .ok v ∧ v.isValid = false

/-- A chart is rejected by the check of its request, or else not at all. -/
theorem rejected_generate_iff (hsource : source.Obliging) :
    Rejected (r.generate source) ↔ r.Refused source := by
  unfold generate
  rw [rejected_bind_iff]
  refine or_congr_right (exists_congr fun v => and_congr_right fun hvalidate => ?_)
  cases hv : v.isValid with
  | false => exact iff_of_true ⟨_, _, rfl⟩ rfl
  | true =>
    obtain ⟨hform, hfilters⟩ := validate_valid hvalidate hv
    refine iff_of_false ?_ nofun
    refine not_rejected_bind (not_rejected_scan hsource hform hfilters) fun ps _ => ?_
    exact not_rejected_bind (not_rejected_arranged hform ps) fun qs _ => not_rejected_ofPoints qs

theorem validate_of_problems {ps : List Problem} (hps : Filter.problems r.filters = .ok ps)
    {columns : List Column} (hcolumns : source.columns r.dataset = .ok columns)
    (h : r.problemsGiven ps columns ≠ []) :
    r.validate source = .ok ⟨r.problemsGiven ps columns, r.columnWarnings columns⟩ := by
  refine Outcome.bind_eq_ok.2 ⟨ps, hps, Outcome.bind_eq_ok.2 ⟨columns, hcolumns, ?_⟩⟩
  exact if_neg (mt List.isEmpty_iff.1 h)

theorem refused_iff {ps : List Problem} (hps : Filter.problems r.filters = .ok ps)
    {columns : List Column} (hcolumns : source.columns r.dataset = .ok columns) {n : Int}
    (hcount : source.count r.plotted = .ok n) :
    r.Refused source ↔ r.problemsGiven ps columns ≠ [] ∨ n = 0 := by
  by_cases h : r.problemsGiven ps columns = []
  · have hvalidate : r.validate source =
        .ok ⟨problemIf (n = 0) .noData, r.columnWarnings columns ++ rowWarnings n⟩ := by
      refine Outcome.bind_eq_ok.2 ⟨ps, hps, Outcome.bind_eq_ok.2 ⟨columns, hcolumns, ?_⟩⟩
      refine (if_pos (List.isEmpty_iff.2 h)).trans ?_
      exact Outcome.bind_eq_ok.2 ⟨n, hcount, rfl⟩
    rw [Refused, hvalidate, or_iff_right (not_not.2 h)]
    constructor
    · rintro (hrejected | ⟨v, ⟨⟩, hv⟩)
      · exact absurd hrejected (not_rejected_ok _)
      · by_contra hn
        rw [decide_eq_false hn] at hv
        cases hv
    · rintro rfl
      exact .inr ⟨_, rfl, rfl⟩
  · refine iff_of_true (.inr ⟨_, validate_of_problems hps hcolumns h, ?_⟩) (.inl h)
    exact Bool.eq_false_iff.2 (mt List.isEmpty_iff.1 h)

/-! ### Bounded requests -/

/-- A bound takes the place of no limit, of zero, and of a greater limit, so that
only a negative limit is still there to be refused. -/
theorem limitedTo_eq {bound : Int} (h : 0 < bound) (r : ChartRequest) :
    ∃ l, r.limitedTo bound = { r with limit := l } ∧ l.any (· ≤ 0) = r.limit.any (· < 0) := by
  unfold limitedTo
  cases hlimit : r.limit with
  | none => exact ⟨some bound, rfl, decide_eq_false (Int.not_le.2 h)⟩
  | some n =>
    by_cases hn : n = 0 ∨ bound < n
    · rw [if_pos (by simpa using hn)]
      refine ⟨some bound, rfl, ?_⟩
      simp only [Option.any_some, decide_eq_decide]
      omega
    · rw [if_neg (by simpa using hn)]
      refine ⟨r.limit, rfl, ?_⟩
      simp only [hlimit, Option.any_some, decide_eq_decide]
      omega

/-- Is a way of combining named that is not known? -/
def combinesBadly (aggregation : Option String) : Bool :=
  (Form.given aggregation).any fun a => (Aggregation.ofName? a).isNone

/-- The request as it is bounded differs in how points are combined and in its
limit. -/
theorem boundedFor_eq (n : Int) (r : ChartRequest) :
    ∃ a l, r.boundedFor n = { r with aggregation := a, limit := l } ∧
      combinesBadly a = combinesBadly r.aggregation ∧
      l.any (· ≤ 0) = if somePlotted < n then r.limit.any (· < 0) else r.limit.any (· ≤ 0) := by
  unfold boundedFor
  split
  · next hmany =>
    have hsome : somePlotted < n :=
      Int.lt_trans (by decide : somePlotted < manyPlotted) hmany
    rw [if_pos hsome]
    dsimp only
    split
    · next hnone =>
      obtain ⟨l, hl, hany⟩ := limitedTo_eq (by decide : 0 < combinedScan)
        { r with aggregation := some Aggregation.avg.name }
      refine ⟨some Aggregation.avg.name, l, hl, ?_, hany⟩
      unfold combinesBadly
      rw [Option.isNone_iff_eq_none.1 hnone]
      rfl
    · obtain ⟨l, hl, hany⟩ := limitedTo_eq (by decide : 0 < combinedScan) r
      exact ⟨r.aggregation, l, hl, rfl, hany⟩
  split
  · obtain ⟨l, hl, hany⟩ := limitedTo_eq (by decide : 0 < limitedScan) r
    exact ⟨r.aggregation, l, hl, rfl, hany⟩
  · exact ⟨r.aggregation, r.limit, rfl, rfl, rfl⟩

/-- The check asks of the combination whether it is known, and of a limit whether it
is positive. -/
theorem validate_with {a : Option String} {l : Option Int}
    (ha : combinesBadly a = combinesBadly r.aggregation)
    (hl : l.any (· ≤ 0) = r.limit.any (· ≤ 0)) :
    { r with aggregation := a, limit := l }.validate source = r.validate source := by
  have hform : { r with aggregation := a, limit := l }.formProblems = r.formProblems := by
    unfold combinesBadly at ha
    unfold formProblems
    rw [ha, hl]
    rfl
  unfold validate
  rw [hform]
  rfl

/-- The bounded request is judged as the request is, but for a limit of zero that a
bound has taken the place of. -/
theorem validate_boundedFor (n : Int) (r : ChartRequest) (source : ChartSource) :
    (r.boundedFor n).validate source =
      if somePlotted < n ∧ r.limit = some 0 then { r with limit := none }.validate source
      else r.validate source := by
  obtain ⟨a, l, hr, ha, hl⟩ := boundedFor_eq n r
  rw [hr]
  by_cases hlifted : somePlotted < n ∧ r.limit = some 0
  · rw [if_pos hlifted]
    rw [if_pos hlifted.1, hlifted.2] at hl
    exact validate_with (r := { r with limit := none }) ha hl
  · rw [if_neg hlifted]
    refine validate_with ha (hl.trans ?_)
    split
    · next hn =>
      cases hlimit : r.limit with
      | none => rfl
      | some m =>
        have hm : m ≠ 0 := fun h => hlifted ⟨hn, hlimit.trans (congrArg some h)⟩
        simp only [Option.any_some, decide_eq_decide]
        omega
    · rfl

/-- Without a limit of zero a request is still refused, if the limit is not all that
is wrong with it and there are rows. -/
theorem refused_without_zero (hlimit : r.limit = some 0) {n : Int}
    (hcount : source.count r.plotted = .ok n) (hn : n ≠ 0) :
    { r with limit := none }.Refused source ↔
      r.Refused source ∧ ¬ ∃ v, r.validate source = .ok v ∧ v.problems = [.limitTooSmall] := by
  let r₀ : ChartRequest := { r with limit := none }
  have hform : r.formProblems = r₀.formProblems ++ [.limitTooSmall] := by
    unfold formProblems
    rw [hlimit]
    exact congrArg (· ++ [_]) (List.append_nil _).symm
  cases hps : Filter.problems r.filters with
  | error e =>
    have hr : r.validate source = .error e := by rw [validate, hps]; rfl
    have hr₀ : r₀.validate source = .error e := by rw [validate, hps]; rfl
    rw [Refused, Refused, hr, hr₀]
    exact ⟨fun h => ⟨h, nofun⟩, fun h => h.1⟩
  | ok ps =>
  cases hcolumns : source.columns r.dataset with
  | error e =>
    have hr : r.validate source = .error e := by rw [validate, hps, hcolumns]; rfl
    have hr₀ : r₀.validate source = .error e := by rw [validate, hps, hcolumns]; rfl
    rw [Refused, Refused, hr, hr₀]
    exact ⟨fun h => ⟨h, nofun⟩, fun h => h.1⟩
  | ok columns =>
    have hproblems : r.problemsGiven ps columns =
        r₀.formProblems ++ [.limitTooSmall] ++ ps ++ r.columnProblems columns := by
      rw [problemsGiven, hform]
    have hsome : r.problemsGiven ps columns ≠ [] := by
      rw [hproblems]
      simp
    have honly : r.problemsGiven ps columns = [.limitTooSmall] ↔
        r₀.problemsGiven ps columns = [] := by
      show _ ↔ r₀.formProblems ++ ps ++ r.columnProblems columns = []
      rw [hproblems, List.append_assoc, List.append_assoc]
      constructor
      · intro h
        have hlength := congrArg List.length h
        simp only [List.length_append, List.length_cons, List.length_nil] at hlength
        rw [← List.length_eq_zero_iff]
        simp only [List.length_append]
        omega
      · intro h
        simp only [List.append_eq_nil_iff] at h
        obtain ⟨⟨hform, rfl⟩, hnone⟩ := h
        rw [hform, hnone]
        rfl
    rw [refused_iff (r := r₀) hps hcolumns hcount, or_iff_left hn,
      refused_iff hps hcolumns hcount, validate_of_problems hps hcolumns hsome, Ne, ← honly]
    constructor
    · intro h
      refine ⟨.inl hsome, ?_⟩
      rintro ⟨v, ⟨⟩, hv⟩
      exact h hv
    · rintro ⟨-, h⟩ hv
      exact h ⟨_, rfl, hv⟩

/-- Bounding lifts the limit of a request: a limit of zero, which is all that is wrong
with the request, where so many rows are plotted that a bound takes its place. -/
structure Lifted (r : ChartRequest) (source : ChartSource) : Prop where
  limit : r.limit = some 0
  only : ∃ v, r.validate source = .ok v ∧ v.problems = [.limitTooSmall]
  many : ∃ n, source.count r.plotted = .ok n ∧ somePlotted < n

/-- The chart of a bounded request is rejected exactly where the chart of the request
is, unless bounding has lifted its limit, or has itself failed in counting the rows. -/
theorem rejected_generateOptimized_iff (hsource : source.Obliging) :
    Rejected (r.generateOptimized source) ↔
      Rejected (r.generate source) ∧ ¬ r.Lifted source ∧ ¬ ∃ e, r.optimize? source = .error e := by
  rw [rejected_generate_iff hsource]
  unfold generateOptimized optimize
  cases hcount : source.count r.plotted with
  | ok n =>
    have hbounded : r.optimize? source = .ok (some (r.boundedFor n)) := by
      rw [optimize?, hcount]
    have hcounted : ¬ ∃ e, r.optimize? source = .error e := by
      rw [hbounded]
      nofun
    rw [and_iff_left hcounted, hbounded]
    show Rejected ((r.boundedFor n).generate source) ↔ _
    rw [rejected_generate_iff hsource, Refused, validate_boundedFor]
    by_cases hlifted : somePlotted < n ∧ r.limit = some 0
    · have hn : n ≠ 0 := Int.ne_of_gt (Int.lt_trans (by decide : 0 < somePlotted) hlifted.1)
      rw [if_pos hlifted, ← Refused, refused_without_zero hlifted.2 hcount hn]
      exact and_congr_right fun _ => not_congr
        ⟨fun honly => ⟨hlifted.2, honly, n, hcount, hlifted.1⟩, Lifted.only⟩
    · rw [if_neg hlifted, ← Refused]
      refine (and_iff_left fun h => hlifted ?_).symm
      obtain ⟨m, hm, hmany⟩ := h.many
      cases hcount.symm.trans hm
      exact ⟨hmany, h.limit⟩
  | error e =>
    have hlifted : ¬ r.Lifted source := fun h => by
      obtain ⟨m, hm, -⟩ := h.many
      cases hcount.symm.trans hm
    rw [and_iff_right hlifted, ← rejected_generate_iff hsource]
    by_cases hfallback : r.optimize? source = .ok none
    · have hcounted : ¬ ∃ e, r.optimize? source = .error e := by
        rw [hfallback]
        nofun
      rw [and_iff_left hcounted, hfallback]
      rfl
    · have hbounding : r.optimize? source = .error e ∧
          ¬ Rejected (.error e : Except Error Series) := by
        unfold optimize? at hfallback ⊢
        rw [hcount] at hfallback ⊢
        cases e with
        | storage activity => exact absurd rfl hfallback
        | rejected problems headline => exact absurd rfl hfallback
        | _ => exact ⟨rfl, fun ⟨_, _, h⟩ => nomatch h⟩
      rw [hbounding.1]
      exact iff_of_false hbounding.2 fun h => h.2 ⟨e, rfl⟩

/-- A negative limit is refused with a bound as it is without one, where a source
says that there are many rows; and so is an empty store. -/
theorem rejected_generateOptimized_iff_negative :
    let r : ChartRequest := ⟨none, some "day", some "close", some "line", none, none, some (-3), []⟩
    let many := ChartSource.fixed [⟨"day", .date⟩, ⟨"close", .number⟩] (.ok 8000) []
    Rejected (r.generateOptimized many) ∧
      Rejected (r.generateOptimized (Store.empty.chartSource (some 1))) := by
  intro r many
  have hlifted : ∀ source, ¬ r.Lifted source := fun _ h => nomatch h.limit
  refine ⟨(rejected_generateOptimized_iff (ChartSource.obliging_fixed _ _ _)).2
    ⟨⟨_, _, rfl⟩, hlifted _, nofun⟩, ?_⟩
  exact (rejected_generateOptimized_iff (Store.obliging_chartSource _ _)).2
    ⟨⟨_, _, rfl⟩, hlifted _, nofun⟩

/-- A limit of zero is refused, but not with the bound for many rows. -/
theorem zero_limit_lifted :
    let r : ChartRequest := ⟨none, some "day", some "close", some "line", none, none, some 0, []⟩
    let source := ChartSource.fixed [⟨"day", .date⟩, ⟨"close", .number⟩] (.ok 1500)
      [[("day", .text "2024-01-01"), ("close", .number (.whole 1))]]
    Rejected (r.generate source) ∧ ¬ Rejected (r.generateOptimized source) := by
  intro r source
  refine ⟨⟨_, _, rfl⟩, ?_⟩
  have hok : (r.generateOptimized source).isOk = true := by decide +kernel
  rintro ⟨_, _, h⟩
  rw [h] at hok
  cases hok

end ChartRequest

end Gridbook
