/-
Gridbook/Proofs/Chart/Judging.lean

What the check of a chart request finds.  There are three lists of problems: of the form, one
for each check that fails (`Misformed`), of the filters, one for each that is turned down, and
of the columns, one for each that is not offered (`Faults`).  All three are listed, and only
where they are empty are the rows counted.

The columns that are offered are those of the datasets in scope.  So a request without
problems is sound in words that do not mention the check (`Sound`), and the rows that are
counted are those that it plots, if the names of its axes are plain.

Main statement: `validate_judges`.
-/
import Gridbook.Proofs.Chart.Scanning
import Gridbook.Proofs.SavedColumns

namespace Gridbook

namespace ChartRequest

variable {r : ChartRequest} {p : Problem} {columns : List Column}

/-! ### Problems of the form -/

/-- The column that a request names for an axis, if it names one. -/
def column? (r : ChartRequest) : Axis → Option String
  | .x => Form.given r.xColumn
  | .y => Form.given r.yColumn
  | .group => Form.given r.groupBy

/-- Is the form of the request wrong in this way? -/
inductive Misformed (r : ChartRequest) : Problem → Prop
  | x (h : r.column? .x = none) : r.Misformed (.axisRequired .x)
  | y (h : r.column? .y = none) : r.Misformed (.axisRequired .y)
  | noType (h : Form.given r.chartType = none) : r.Misformed .chartTypeRequired
  | badType {t : String} (h : Form.given r.chartType = some t) (hline : t ≠ "line")
    (hbar : t ≠ "bar") : r.Misformed .badChartType
  | aggregation {name : String} (h : Form.given r.aggregation = some name)
    (hnone : ∀ a : Aggregation, a.name ≠ name) : r.Misformed .badAggregation
  | limit {n : Int} (h : r.limit = some n) (hn : n ≤ 0) : r.Misformed .limitTooSmall

theorem mem_problemIf {b : Bool} {q : Problem} : p ∈ problemIf b q ↔ b = true ∧ p = q := by
  cases b <;> simp [problemIf]

theorem mem_typeProblems : p ∈ r.typeProblems ↔
    (Form.given r.chartType = none ∧ p = .chartTypeRequired) ∨
      ∃ t, Form.given r.chartType = some t ∧ (t ≠ "line" ∧ t ≠ "bar") ∧ p = .badChartType := by
  unfold typeProblems
  split
  · next h => simp [h]
  · next t h => simp [h, mem_problemIf]

theorem ofName?_eq_none_iff {name : String} :
    Aggregation.ofName? name = none ↔ ∀ a : Aggregation, a.name ≠ name := by
  rw [Aggregation.ofName?, List.find?_eq_none]
  constructor
  · intro h a
    simpa using h a (by cases a <;> decide)
  · intro h a _
    simpa using h a

/-- The form is listed to be wrong as it is. -/
theorem mem_formProblems : p ∈ r.formProblems ↔ r.Misformed p := by
  unfold formProblems
  simp only [List.mem_append, mem_problemIf, mem_typeProblems, Option.isNone_iff_eq_none,
    Option.any_eq_true, ofName?_eq_none_iff, decide_eq_true_eq]
  constructor
  · rintro ((((⟨h, rfl⟩ | ⟨h, rfl⟩) | ⟨h, rfl⟩ | ⟨t, h, ⟨hline, hbar⟩, rfl⟩) |
      ⟨⟨name, h, hnone⟩, rfl⟩) | ⟨⟨n, h, hn⟩, rfl⟩)
    · exact .x h
    · exact .y h
    · exact .noType h
    · exact .badType h hline hbar
    · exact .aggregation h hnone
    · exact .limit h hn
  · intro h
    cases h with
    | x h => exact .inl (.inl (.inl (.inl ⟨h, rfl⟩)))
    | y h => exact .inl (.inl (.inl (.inr ⟨h, rfl⟩)))
    | noType h => exact .inl (.inl (.inr (.inl ⟨h, rfl⟩)))
    | badType h hline hbar => exact .inl (.inl (.inr (.inr ⟨_, h, ⟨hline, hbar⟩, rfl⟩)))
    | aggregation h hnone => exact .inl (.inr ⟨⟨_, h, hnone⟩, rfl⟩)
    | limit h hn => exact .inr ⟨⟨_, h, hn⟩, rfl⟩

theorem sublist_problemIf (b : Bool) (q : Problem) : (problemIf b q).Sublist [q] := by
  cases b
  · exact List.nil_sublist [q]
  · exact List.Sublist.refl [q]

/-- The form is listed to be wrong once in each way. -/
theorem nodup_formProblems (r : ChartRequest) : r.formProblems.Nodup := by
  have htype : r.typeProblems.Sublist [.chartTypeRequired, .badChartType] := by
    unfold typeProblems
    split
    · exact List.sublist_append_left [_] [_]
    · exact (sublist_problemIf _ _).trans (List.sublist_append_right [_] [_])
  unfold formProblems
  have haxes := (sublist_problemIf (Form.given r.xColumn).isNone (.axisRequired .x)).append
    (sublist_problemIf (Form.given r.yColumn).isNone (.axisRequired .y))
  exact (((haxes.append htype).append (sublist_problemIf _ .badAggregation)).append
    (sublist_problemIf _ .limitTooSmall)).nodup (by simp)

/-! ### Problems of the columns -/

theorem problemIf_eq_toList (b : Bool) (q : Problem) :
    problemIf b q = Option.toList (if b then some q else none) := by
  cases b <;> rfl

/-- Axis by axis, a column is unknown if it is not among those that are listed. -/
theorem columnProblems_eq (r : ChartRequest) (columns : List Column) :
    r.columnProblems columns = [Axis.x, .y, .group].filterMap fun axis =>
      (r.column? axis).bind fun name =>
        if columns.all (·.name ≠ name) then some (.unknownAxis axis name) else none := by
  rw [List.filterMap_eq_flatMap_toList]
  simp only [List.flatMap_cons, List.flatMap_nil, List.append_nil, column?]
  unfold columnProblems
  rw [List.append_assoc]
  refine congrArg₂ (· ++ ·) ?_ (congrArg₂ (· ++ ·) ?_ ?_)
  all_goals
    dsimp only
    split
    · next h =>
      rw [h]
      exact problemIf_eq_toList _ _
    · next h =>
      rw [h]
      rfl

theorem mem_columnProblems : p ∈ r.columnProblems columns ↔ ∃ axis name,
    p = .unknownAxis axis name ∧ r.column? axis = some name ∧ name ∉ columns.map (·.name) := by
  rw [columnProblems_eq, List.mem_filterMap]
  constructor
  · rintro ⟨axis, -, h⟩
    obtain ⟨name, hname, h⟩ := Option.bind_eq_some_iff.1 h
    split at h
    · next hall =>
      cases h
      exact ⟨axis, name, rfl, hname, by simpa using hall⟩
    · cases h
  · rintro ⟨axis, name, rfl, hname, hnot⟩
    refine ⟨axis, by cases axis <;> decide, Option.bind_eq_some_iff.2 ⟨name, hname, ?_⟩⟩
    exact if_pos (by simpa using hnot)

/-- Each axis has one column that can be unknown. -/
theorem nodup_columnProblems (r : ChartRequest) (columns : List Column) :
    (r.columnProblems columns).Nodup := by
  rw [columnProblems_eq]
  refine List.Nodup.filterMap (fun axis axis' p hp hp' => ?_) (by decide)
  obtain ⟨name, -, h⟩ := Option.bind_eq_some_iff.1 hp
  obtain ⟨name', -, h'⟩ := Option.bind_eq_some_iff.1 hp'
  split at h
  · split at h'
    · cases h
      cases h'
      rfl
    · cases h'
  · cases h

/-! ### Sound requests -/

/-- Do these lists have a problem for each check that the request fails?  The first is about
its form, the second about its filters, and the third about its columns, which are to be
among those that are offered. -/
structure Faults (r : ChartRequest) (offered : String → Prop)
    (form filters unknown : List Problem) : Prop where
  mem_form : ∀ p, p ∈ form ↔ r.Misformed p
  nodup_form : form.Nodup
  filters : List.Forall₂ (fun f p => f.check = .error (.problem p))
    (r.filters.filter (!·.check.isOk)) filters
  mem_unknown : ∀ p, p ∈ unknown ↔ ∃ axis name,
    p = .unknownAxis axis name ∧ r.column? axis = some name ∧ ¬ offered name
  nodup_unknown : unknown.Nodup

/-- Is the request sound, where these columns are offered? -/
structure Sound (r : ChartRequest) (offered : String → Prop) : Prop where
  x : (r.column? .x).isSome
  y : (r.column? .y).isSome
  type : r.chartType = some "line" ∨ r.chartType = some "bar"
  aggregation : ∀ name ∈ Form.given r.aggregation, ∃ a : Aggregation, a.name = name
  limit : ∀ n ∈ r.limit, 0 < n
  filters : ∀ f ∈ r.filters, ∃ valid, f.check = .ok valid
  columns : ∀ axis, ∀ name ∈ r.column? axis, offered name

variable {offered : String → Prop} {form filters unknown : List Problem}

theorem Sound.not_misformed (h : r.Sound offered) : ¬ r.Misformed p := by
  intro hp
  cases hp with
  | x hnone => exact absurd h.x (by simp [hnone])
  | y hnone => exact absurd h.y (by simp [hnone])
  | noType hnone =>
    rcases h.type with ht | ht
    · rw [ht] at hnone
      exact absurd hnone (by decide)
    · rw [ht] at hnone
      exact absurd hnone (by decide)
  | badType ht hline hbar =>
    have ht := given_eq_some ht
    rcases h.type with hsome | hsome
    · exact hline (Option.some.inj (ht.symm.trans hsome))
    · exact hbar (Option.some.inj (ht.symm.trans hsome))
  | aggregation hname hnone =>
    obtain ⟨a, ha⟩ := h.aggregation _ hname
    exact hnone a ha
  | limit hn hle => exact absurd (h.limit _ hn) (Int.not_lt.2 hle)

/-- A request is sound if its form is not wrong in any way, nor its filters or its columns. -/
theorem sound_of_not_misformed (hform : ∀ p, ¬ r.Misformed p)
    (hfilters : ∀ f ∈ r.filters, ∃ valid, f.check = .ok valid)
    (hcolumns : ∀ axis, ∀ name ∈ r.column? axis, offered name) : r.Sound offered where
  x := Option.isSome_iff_ne_none.2 fun hnone => hform _ (.x hnone)
  y := Option.isSome_iff_ne_none.2 fun hnone => hform _ (.y hnone)
  type := by
    obtain ⟨t, ht⟩ := Option.ne_none_iff_exists'.1 fun hnone => hform _ (.noType hnone)
    rw [given_eq_some ht]
    by_contra hother
    rw [Option.some_inj, Option.some_inj, not_or] at hother
    exact hform _ (.badType ht hother.1 hother.2)
  aggregation name hname := by
    by_contra hnone
    exact hform _ (.aggregation hname fun a ha => hnone ⟨a, ha⟩)
  limit n hn := Int.not_le.1 fun hle => hform _ (.limit hn hle)
  filters := hfilters
  columns := hcolumns

/-- A request has no faults exactly if it is sound. -/
theorem Faults.eq_nil_iff (h : r.Faults offered form filters unknown) :
    form ++ filters ++ unknown = [] ↔ r.Sound offered := by
  rw [List.append_eq_nil_iff, List.append_eq_nil_iff, Filter.eq_nil_iff_of_forall₂ h.filters]
  constructor
  · rintro ⟨⟨rfl, hfilters⟩, rfl⟩
    refine sound_of_not_misformed (fun p hp => ?_) hfilters fun axis name hname => ?_
    · exact absurd ((h.mem_form p).2 hp) List.not_mem_nil
    · by_contra hnot
      exact absurd ((h.mem_unknown _).2 ⟨axis, name, rfl, hname, hnot⟩) List.not_mem_nil
  · intro hsound
    refine ⟨⟨List.eq_nil_iff_forall_not_mem.2 fun p hp => ?_, hsound.filters⟩,
      List.eq_nil_iff_forall_not_mem.2 fun p hp => ?_⟩
    · exact hsound.not_misformed ((h.mem_form p).1 hp)
    · obtain ⟨axis, name, rfl, hname, hnot⟩ := (h.mem_unknown p).1 hp
      exact hnot (hsound.columns axis name hname)

/-- That there is no data is no fault of a request. -/
theorem Faults.not_mem_noData (h : r.Faults offered form filters unknown) :
    .noData ∉ form ++ filters ++ unknown := by
  intro hmem
  rcases List.mem_append.1 hmem with hmem | hmem
  · rcases List.mem_append.1 hmem with hmem | hmem
    · cases (h.mem_form _).1 hmem
    · obtain ⟨f, -, hf⟩ := Outcome.exists_of_forall₂ h.filters hmem
      obtain ⟨p, hp, -, hps⟩ := Filter.problem_of_check hf
      cases List.cons.inj hps |>.1
      simp at hp
  · obtain ⟨axis, name, hp, -⟩ := (h.mem_unknown _).1 hmem
    cases hp

/-! ### Verdicts -/

/-- A chart is drawn or rejected as its request is judged. -/
theorem generate_of_verdict {source : ChartSource} (hsource : source.Obliging)
    {verdict : ChartVerdict} (h : r.validate source = .ok verdict) :
    (verdict.isValid → ¬ Rejected (r.generate source)) ∧
      (¬ verdict.isValid → ∃ headline,
        r.generate source = .error (.rejected verdict.problems headline)) := by
  constructor
  · intro hvalid hrejected
    rcases (rejected_generate_iff hsource).1 hrejected with ⟨_, _, herror⟩ | ⟨v, hv, hinvalid⟩
    · cases h.symm.trans herror
    · cases h.symm.trans hv
      rw [hvalid] at hinvalid
      cases hinvalid
  · intro hinvalid
    have hrejected : r.generate source = .error (invalid verdict.problems) := by
      rw [generate, h]
      exact if_neg hinvalid
    exact ⟨_, hrejected⟩

end ChartRequest

/-! ### Requests for stored rows -/

namespace Store

variable {s : Store} {owner : Ident} {r : ChartRequest} {verdict : ChartVerdict}

/-- Has a dataset in scope the column? -/
def HasColumn (s : Store) (owner : Ident) (dataset : Option Int) (name : String) : Prop :=
  ∃ d ∈ s.datasets, (owner.names d.owner ∧ ∀ id ∈ dataset, id = d.id) ∧ name ∈ d.columns

/-- Has the store rows that the request plots? -/
def HasPlotted [Reader] (s : Store) (owner : Ident) (r : ChartRequest) : Prop :=
  ∃ (x y : String) (valid : Selection) (rows : List Row), s.Plots owner r x y valid rows ∧ rows ≠ []

/-- What is listed before rows are counted are the faults of the request. -/
theorem faults_of_problems [Reader] (hs : s.Reachable) {filters : List Problem}
    {columns : List Column} (hfilters : Filter.problems r.filters = .ok filters)
    (hcolumns : (s.chartSource owner).columns r.dataset = .ok columns) :
    r.Faults (s.HasColumn owner r.dataset) r.formProblems filters (r.columnProblems columns) where
  mem_form _ := ChartRequest.mem_formProblems
  nodup_form := r.nodup_formProblems
  filters := Filter.forall₂_of_problems hfilters
  mem_unknown p := by
    simp only [ChartRequest.mem_columnProblems, names_columns hs.integral hcolumns]
    rfl
  nodup_unknown := r.nodup_columnProblems columns

/-- Rows are counted exactly if there are some to plot, where the names of the axes are
plain. -/
theorem count_ne_zero_iff [Reader] (hs : s.Reachable) (hform : r.formProblems = [])
    (hplain : ∀ column ∈ r.axes, Path.isPlain column) {n : Int}
    (h : (s.chartSource owner).count r.plotted = .ok n) : n ≠ 0 ↔ s.HasPlotted owner r := by
  obtain ⟨x, y, valid, order, rows, hplots, rfl, -⟩ := exists_plots hs hform hplain h
  constructor
  · intro hn
    refine ⟨x, y, valid, rows, hplots, ?_⟩
    rintro rfl
    exact hn rfl
  · rintro ⟨x', y', valid', rows', hplots', hsome⟩
    cases hplots.xColumn.symm.trans hplots'.xColumn
    cases hplots.yColumn.symm.trans hplots'.yColumn
    cases hplots.checked.symm.trans hplots'.checked
    obtain ⟨row, hrow⟩ := List.exists_mem_of_ne_nil rows' hsome
    have hpos := List.length_pos_of_mem ((hplots.mem row).2 ((hplots'.mem row).1 hrow))
    omega

/-- A request is judged by all of its faults, each of which is listed once; only if it has
none may it be told that there is no data, and nothing else then.  It is found valid, where
the names of its axes are plain, exactly if it is sound for the columns in scope and there
are rows to plot.  A chart of it is rejected exactly if it is not, with the same problems. -/
theorem validate_judges [Reader] (hs : s.Reachable)
    (h : r.validate (s.chartSource owner) = .ok verdict) :
    (∃ form filters unknown, r.Faults (s.HasColumn owner r.dataset) form filters unknown ∧
      (verdict.problems = form ++ filters ++ unknown ∨
        form ++ filters ++ unknown = [] ∧ verdict.problems = [.noData])) ∧
    (.noData ∈ verdict.problems → verdict.problems = [.noData]) ∧
    ((∀ column ∈ r.axes, Path.isPlain column) →
      (verdict.isValid ↔ r.Sound (s.HasColumn owner r.dataset) ∧ s.HasPlotted owner r)) ∧
    (verdict.isValid → ¬ Rejected (r.generate (s.chartSource owner))) ∧
    (¬ verdict.isValid → ∃ headline,
      r.generate (s.chartSource owner) = .error (.rejected verdict.problems headline)) := by
  obtain ⟨filters, columns, hfilters, hcolumns, hproblems⟩ := ChartRequest.validate_cases h
  have hfaults := faults_of_problems hs hfilters hcolumns
  have hsound : r.problemsGiven filters columns = [] ↔ r.Sound (s.HasColumn owner r.dataset) :=
    hfaults.eq_nil_iff
  have hnoData : Problem.noData ∉ r.problemsGiven filters columns := hfaults.not_mem_noData
  have hvalid : verdict.isValid ↔ verdict.problems = [] := List.isEmpty_iff
  have hdrawn := ChartRequest.generate_of_verdict (obliging_chartSource s owner) h
  rcases hproblems with ⟨hsome, hgiven⟩ | ⟨hnone, n, hcount, hcounted⟩
  · refine ⟨⟨_, _, _, hfaults, .inl hgiven⟩, fun hmem => ?_, fun _ => ?_, hdrawn⟩
    · rw [hgiven] at hmem
      exact absurd hmem hnoData
    · rw [hvalid, hgiven]
      exact iff_of_false hsome fun hboth => hsome (hsound.2 hboth.1)
  · have hproblems : verdict.problems = [] ∨ verdict.problems = [.noData] := by
      rw [hcounted]
      cases decide (n = 0)
      · exact .inl rfl
      · exact .inr rfl
    refine ⟨⟨_, _, _, hfaults, ?_⟩, fun hmem => ?_, fun hplain => ?_, hdrawn⟩
    · exact hproblems.imp (fun h => h.trans hnone.symm) fun h => ⟨hnone, h⟩
    · exact hproblems.resolve_left (List.ne_nil_of_mem hmem)
    · have hform : r.formProblems = [] :=
        (List.append_eq_nil_iff.1 (List.append_eq_nil_iff.1 hnone).1).1
      rw [hvalid, hcounted, ChartRequest.problemIf_eq_nil_iff, decide_eq_false_iff_not,
        ← count_ne_zero_iff hs hform hplain hcount]
      exact (and_iff_right (hsound.1 hnone)).symm

/-- A request that fails all kinds of checks, and one that fails none. -/
theorem validate_judges_two :
    let u : Upload := ⟨[.text "day", .text "cost"], [[.text "mon", .bool true]], false⟩
    let s := empty.run [.ingest (some 1) (some "t") none u]
    let r : ChartRequest := ⟨none, some "", some "z", some "pie", some "mode", some "w", some 0,
      [⟨"", "eq", .bool true⟩, ⟨"day", "eq", .text "mon"⟩, ⟨"day", "gt", .text "x"⟩]⟩
    let sound : ChartRequest :=
      ⟨some 1, some "day", some "cost", some "line", some "avg", none, some 1, []⟩
    s.Reachable ∧
      (∃ verdict, r.validate (s.chartSource (some 1)) = .ok verdict ∧
        verdict.problems = [.axisRequired .x, .badChartType, .badAggregation, .limitTooSmall,
          .filterColumnRequired, .filterValueNotNumeric "day" "gt", .unknownAxis .y "z",
          .unknownAxis .group "w"] ∧
        ∃ headline, r.generate (s.chartSource (some 1)) =
          .error (.rejected verdict.problems headline)) ∧
      ∃ verdict, sound.validate (s.chartSource (some 1)) = .ok verdict ∧ verdict.isValid ∧
        sound.Sound (s.HasColumn (some 1) sound.dataset) ∧ s.HasPlotted (some 1) sound := by
  intro u s r sound
  have hs : s.Reachable := ⟨_, rfl⟩
  refine ⟨hs, ?_, ?_⟩
  · obtain ⟨verdict, hverdict, hproblems⟩ : ∃ verdict,
        r.validate (s.chartSource (some 1)) = .ok verdict ∧
        verdict.problems = [.axisRequired .x, .badChartType, .badAggregation, .limitTooSmall,
          .filterColumnRequired, .filterValueNotNumeric "day" "gt", .unknownAxis .y "z",
          .unknownAxis .group "w"] := Outcome.of_toOption_map (by decide +kernel)
    obtain ⟨-, -, -, -, hrejected⟩ := validate_judges hs hverdict
    refine ⟨verdict, hverdict, hproblems, hrejected fun hvalid => ?_⟩
    rw [ChartVerdict.isValid, hproblems] at hvalid
    cases hvalid
  · obtain ⟨verdict, hverdict, hvalid⟩ : ∃ verdict,
        sound.validate (s.chartSource (some 1)) = .ok verdict ∧ verdict.isValid = true :=
      Outcome.of_toOption_map (by decide +kernel)
    obtain ⟨-, -, hjudged, -⟩ := validate_judges hs hverdict
    exact ⟨verdict, hverdict, hvalid, (hjudged (by decide +kernel)).1 hvalid⟩

/-- A sound request, for a row that has both of its columns, is told that there is no data:
the store does not find a field under a name that is spelled with an escape. -/
theorem escaped_axis_without_data :
    let u : Upload := ⟨[.text "é", .text "v"], [[.number (.whole 1), .number (.whole 1)]], false⟩
    let s := empty.run [.ingest (some 1) (some "t") none u]
    let r : ChartRequest := ⟨none, some "é", some "v", some "bar", none, none, none, []⟩
    s.Reachable ∧ r.Sound (s.HasColumn (some 1) r.dataset) ∧ s.HasPlotted (some 1) r ∧
      ∃ verdict, r.validate (s.chartSource (some 1)) = .ok verdict ∧
        verdict.problems = [.noData] := by
  intro u s r
  have hs : s.Reachable := ⟨_, rfl⟩
  obtain ⟨verdict, hverdict, hproblems⟩ : ∃ verdict,
      r.validate (s.chartSource (some 1)) = .ok verdict ∧ verdict.problems = [.noData] :=
    Outcome.of_toOption_map (by decide +kernel)
  refine ⟨hs, ?_, ?_, verdict, hverdict, hproblems⟩
  · obtain ⟨filters, columns, hfilters, hcolumns, ⟨-, hgiven⟩ | ⟨hnone, -⟩⟩ :=
      ChartRequest.validate_cases hverdict
    · have hmem : Problem.noData ∈ verdict.problems := hproblems ▸ List.mem_singleton_self _
      rw [hgiven] at hmem
      exact absurd hmem (faults_of_problems hs hfilters hcolumns).not_mem_noData
    · exact (faults_of_problems hs hfilters hcolumns).eq_nil_iff.1 hnone
  · let valid : Selection := ⟨some 1, r.dataset, [], r.axes⟩
    have hplotted : ∀ row ∈ s.rows, valid.covers row ∧ (∀ f ∈ valid.filters, f.Holds row) ∧
        row.fields.has "é" ∧ row.fields.has "v" := by
      have hall : (s.rows.all fun row => valid.covers row && row.fields.has "é" &&
          row.fields.has "v") = true := by decide +kernel
      intro row hrow
      have hrow := List.all_eq_true.1 hall row hrow
      simp only [Bool.and_eq_true] at hrow
      exact ⟨hrow.1.1, nofun, hrow.1.2, hrow.2⟩
    have hone : s.rows.length = 1 := by decide +kernel
    exact ⟨"é", "v", valid, s.rows, ⟨rfl, rfl, by decide +kernel, rfl, hs.integral.rowIds,
      fun row => (and_iff_left_of_imp (hplotted row)).symm⟩, List.ne_nil_of_length_eq_add_one hone⟩

end Store

end Gridbook
