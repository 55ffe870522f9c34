/-
Gridbook/Proofs/Chart/Tightening.lean

Bounding a request by its number of rows only tightens it, and nothing is left to tighten
then.  There are three bands (`boundedFor_cases`): few rows leave the request as it is, more
of them lower its limit, and very many also have their points combined.

The limit bounds the points of a chart from above, and so does the number of rows, since the
scan reads no rows but those that are counted.  Of few rows it is their number alone that
bounds the points; where it cannot be taken, the request is not bounded, but then its chart
fails too, for its check takes the same number.

Main statement: `optimized_within`.
-/
import Gridbook.Proofs.Chart.Scanning

namespace Gridbook

/-- There are not more distinct members than members. -/
theorem length_distinct_le {κ : Type} [DecidableEq κ] (ks : List κ) :
    (distinct ks).length ≤ ks.length :=
  ((nodup_distinct ks).subperm fun _ => mem_distinct.1).length_le

namespace ChartRequest

variable {r r' : ChartRequest} {source : ChartSource} {n : Int}

/-! ### Bounded requests -/

/-- Is `r'` the request `r` but for the way of combining, where `r` gives none, and the limit,
which is no greater than that of `r`? -/
structure Tightens (r r' : ChartRequest) : Prop where
  others : ∃ a l, r' = { r with aggregation := a, limit := l }
  aggregation : r'.aggregation = r.aggregation ∨
    Form.given r.aggregation = none ∧ r'.aggregation = some "avg"
  limit : ∀ m ∈ r.limit, ∃ l ∈ r'.limit, l ≤ m

theorem Tightens.refl (r : ChartRequest) : r.Tightens r where
  others := ⟨r.aggregation, r.limit, rfl⟩
  aggregation := .inl rfl
  limit m hm := ⟨m, hm, Int.le_refl m⟩

/-- A bound takes the place of a greater limit, and of none. -/
theorem exists_limitedTo {bound : Int} (hbound : 0 < bound) (hlimit : ∀ m ∈ r.limit, 0 < m) :
    ∃ l, r.limitedTo bound = { r with limit := some l } ∧ 0 < l ∧ l ≤ bound ∧
      ∀ m ∈ r.limit, l ≤ m := by
  unfold limitedTo
  cases h : r.limit with
  | none => exact ⟨bound, rfl, hbound, Int.le_refl bound, nofun⟩
  | some m =>
    have hm : 0 < m := hlimit m h
    by_cases hless : bound < m
    · refine ⟨bound, if_pos (by simp [hless]), hbound, Int.le_refl bound, ?_⟩
      simpa using Int.le_of_lt hless
    · refine ⟨m, ?_, hm, Int.not_lt.1 hless, by simp⟩
      rw [if_neg (by simp [hless, Int.ne_of_gt hm]), ← h]

/-- A bounded request is the request itself, or its limit is lowered, or its points are
combined besides, according to the number of rows. -/
theorem boundedFor_cases (n : Int) (hlimit : ∀ m ∈ r.limit, 0 < m) :
    (n ≤ 1000 ∧ r.boundedFor n = r) ∨
    (1000 < n ∧ n ≤ 5000 ∧ ∃ l, r.boundedFor n = { r with limit := some l } ∧ 0 < l ∧
      l ≤ 2000 ∧ ∀ m ∈ r.limit, l ≤ m) ∨
    (5000 < n ∧ ∃ l, r.boundedFor n =
        { r with aggregation := some ((Form.given r.aggregation).getD "avg"), limit := some l } ∧
      0 < l ∧ l ≤ 1000 ∧ ∀ m ∈ r.limit, l ≤ m) := by
  unfold boundedFor
  by_cases hmany : manyPlotted < n
  · refine .inr (.inr ⟨hmany, ?_⟩)
    rw [if_pos hmany]
    cases hgiven : Form.given r.aggregation with
    | none =>
      exact exists_limitedTo (r := { r with aggregation := some "avg" }) (by decide) hlimit
    | some name =>
      have hname : r = { r with aggregation := some name } := by
        rw [← given_eq_some hgiven]
      obtain ⟨l, hl, hspec⟩ := exists_limitedTo (by decide : 0 < combinedScan) hlimit
      exact ⟨l, hl.trans (congrArg (fun r : ChartRequest => { r with limit := some l }) hname),
        hspec⟩
  · rw [if_neg hmany]
    by_cases hsome : somePlotted < n
    · rw [if_pos hsome]
      exact .inr (.inl ⟨hsome, Int.not_lt.1 hmany, exists_limitedTo (by decide) hlimit⟩)
    · rw [if_neg hsome]
      exact .inl ⟨Int.not_lt.1 hsome, rfl⟩

theorem tightens_boundedFor (n : Int) (hlimit : ∀ m ∈ r.limit, 0 < m) :
    r.Tightens (r.boundedFor n) := by
  obtain ⟨-, h⟩ | ⟨-, -, l, h, -, -, hle⟩ | ⟨-, l, h, -, -, hle⟩ := boundedFor_cases n hlimit
  · rw [h]
    exact Tightens.refl r
  · rw [h]
    exact ⟨⟨r.aggregation, some l, rfl⟩, .inl rfl, fun m hm => ⟨l, rfl, hle m hm⟩⟩
  · rw [h]
    refine ⟨⟨_, some l, rfl⟩, ?_, fun m hm => ⟨l, rfl, hle m hm⟩⟩
    cases hgiven : Form.given r.aggregation with
    | none => exact .inr ⟨rfl, rfl⟩
    | some name => exact .inl (given_eq_some hgiven).symm

theorem Tightens.plotted_eq (h : r.Tightens r') : r'.plotted = r.plotted := by
  obtain ⟨a, l, rfl⟩ := h.others
  rfl

theorem scanLimit_of_pos {l : Int} (h : r.limit = some l) (hpos : 0 < l) : r.scanLimit = l := by
  rw [scanLimit, h, Option.filter_some, if_pos (decide_eq_true (Int.ne_of_gt hpos))]
  rfl

/-- Where no way of combining is given, the average is one that is. -/
theorem given_getD_avg (r : ChartRequest) :
    Form.given (some ((Form.given r.aggregation).getD "avg")) =
      some ((Form.given r.aggregation).getD "avg") := by
  cases hname : Form.given r.aggregation with
  | none => decide
  | some name => rw [Option.getD_some, ← given_eq_some hname, hname, given_eq_some hname]

theorem limitedTo_of_le {bound l : Int} (hlimit : r.limit = some l) (hpos : 0 < l)
    (hle : l ≤ bound) : r.limitedTo bound = r := by
  rw [limitedTo, hlimit]
  exact if_neg (by simp [Int.ne_of_gt hpos, Int.not_lt.2 hle])

/-- What is bounded for a number of rows stays as it is when it is bounded for it again. -/
theorem boundedFor_boundedFor (n : Int) (hlimit : ∀ m ∈ r.limit, 0 < m) :
    (r.boundedFor n).boundedFor n = r.boundedFor n := by
  obtain ⟨-, h⟩ | ⟨hn, hle, l, h, hpos, hl, -⟩ | ⟨hn, l, h, hpos, hl, -⟩ :=
    boundedFor_cases n hlimit
  · rw [h, h]
  · have hmany : ¬ manyPlotted < n := Int.not_lt.2 hle
    have hsome : somePlotted < n := hn
    rw [h, boundedFor, if_neg hmany, if_pos hsome]
    exact limitedTo_of_le rfl hpos hl
  · have hmany : manyPlotted < n := hn
    rw [h, boundedFor, if_pos hmany]
    -- how points are combined is given now, if it was not before
    dsimp only
    rw [given_getD_avg, if_neg (by simp)]
    exact limitedTo_of_le rfl hpos hl

/-- A request is bounded by the number of its rows, or stays as it is where they cannot be
counted. -/
theorem optimize_eq_ok : r.optimize source = .ok r' ↔
    (∃ n, source.count r.plotted = .ok n ∧ r' = r.boundedFor n) ∨
    (∃ e, source.count r.plotted = .error e ∧ r.optimize? source = .ok none) ∧ r' = r := by
  unfold optimize optimize?
  cases hcount : source.count r.plotted with
  | ok n =>
    constructor
    · intro h
      exact .inl ⟨n, rfl, (Except.ok.inj h).symm⟩
    · rintro (⟨_, ⟨⟩, rfl⟩ | ⟨⟨_, ⟨⟩, -⟩, -⟩)
      rfl
  | error e =>
    constructor
    · intro h
      obtain ⟨bounded, hbounded, h⟩ := Outcome.bind_eq_ok.1 h
      cases e <;> cases hbounded
      all_goals exact .inr ⟨⟨_, rfl, rfl⟩, (Except.ok.inj h).symm⟩
    · rintro (⟨_, ⟨⟩, -⟩ | ⟨⟨_, -, h⟩, rfl⟩)
      rw [h]
      rfl

/-- Bounding a request tightens it, and bounding the result changes nothing. -/
theorem tightens_of_optimize (hlimit : ∀ m ∈ r.limit, 0 < m) (h : r.optimize source = .ok r') :
    r.Tightens r' ∧ r'.optimize source = .ok r' := by
  obtain ⟨n, hcount, rfl⟩ | ⟨-, rfl⟩ := optimize_eq_ok.1 h
  · have htightens := tightens_boundedFor n hlimit
    refine ⟨htightens, optimize_eq_ok.2 (.inl ⟨n, ?_, (boundedFor_boundedFor n hlimit).symm⟩)⟩
    rw [htightens.plotted_eq, hcount]
  · exact ⟨Tightens.refl r', h⟩

/-- A chart of a bounded request is bounded for a number of rows that has been taken: where
it cannot be taken, the check of the request fails. -/
theorem exists_count_of_generateOptimized {series : Series}
    (h : r.generateOptimized source = .ok series) :
    ∃ n, source.count r.plotted = .ok n ∧ (r.boundedFor n).generate source = .ok series := by
  obtain ⟨r', hr', hdrawn⟩ := Outcome.bind_eq_ok.1 h
  obtain ⟨n, hcount, rfl⟩ | ⟨⟨e, hcount, -⟩, rfl⟩ := optimize_eq_ok.1 hr'
  · exact ⟨n, hcount, hdrawn⟩
  · obtain ⟨verdict, _, _, hverdict, hvalid, -⟩ := generate_eq_ok hdrawn
    obtain ⟨n, hn, -⟩ := exists_count hverdict hvalid
    cases hcount.symm.trans hn

/-! ### The number of points -/

/-- Drawing does not add points. -/
theorem length_arranged_le {ps qs : List Point} (hps : ∀ p ∈ ps, p.Extracted)
    (hx : ∀ p ∈ ps, p.x.isOrdinary) (h : r.arranged ps = .ok qs) : qs.length ≤ ps.length := by
  cases hname : Form.given r.aggregation with
  | none => exact Nat.le_of_eq (perm_arranged_of_none hx hname h).length_eq
  | some name =>
    obtain ⟨a, -, hperm⟩ := perm_arranged hps hx hname h
    let key := Aggregation.pointKey (Form.given r.groupBy).isSome
    have hkeys : (a.combinedBy key ps).map key = distinct (ps.map key) :=
      Aggregation.map_key_combinedBy fun _ _ => rfl
    calc qs.length = ((a.combinedBy key ps).map key).length := by
          rw [List.length_map, hperm.length_eq]
      _ ≤ (ps.map key).length := hkeys ▸ length_distinct_le (ps.map key)
      _ = ps.length := List.length_map key

end ChartRequest

namespace Store

variable {s : Store} {owner : Ident} {r : ChartRequest} {series : Series}

/-- A chart of stored rows has been drawn from points of the first rows that are counted, as
many as the scan reads, and shows no more than these. -/
theorem exists_drawn_of_generate [Reader] (hs : s.Reachable)
    (h : r.generate (s.chartSource owner) = .ok series) :
    ∃ (n : Nat) (ps qs : List Point), (s.chartSource owner).count r.plotted = .ok n ∧
      r.scan (s.chartSource owner) = .ok ps ∧ (∀ p ∈ ps, p.Extracted) ∧
      (∀ p ∈ ps, p.x.isOrdinary) ∧ r.arranged ps = .ok qs ∧ Series.ofPoints r qs = .ok series ∧
      series.shown.length ≤ n ∧ (series.shown.length : Int) ≤ r.scanLimit := by
  obtain ⟨_, ps, qs, -, -, hscan, harranged, hdrawn⟩ := ChartRequest.generate_eq_ok h
  obtain ⟨fields, hfields, hps⟩ := Outcome.bind_eq_ok.1 hscan
  obtain ⟨hpos, hfits⟩ := limit_of_rows hfields
  obtain ⟨valid, order, rows, -, -, hfinds, hcount, rfl⟩ :=
    rows_chartSource hs.integral.rowIds hpos hfits hfields
  have hextracted := Point.extracted_of_extract hps
  have hx := isOrdinary_of_extract hs (fun row hrow =>
    (((hfinds.spec hs.integral.rowIds).1 row).1 (List.mem_of_mem_take hrow)).1) hps
  have hread : ps.length ≤ min r.scanLimit.toNat rows.length := by
    have hle := Point.length_extract_le hps
    rwa [List.length_map, List.length_take] at hle
  have hshown : series.shown.length ≤ ps.length := by
    rw [(Series.shown_ofPoints hdrawn).2.length_eq, List.length_map]
    exact ChartRequest.length_arranged_le hextracted hx harranged
  refine ⟨rows.length, ps, qs, hcount, hscan, hextracted, hx, harranged, hdrawn, ?_, ?_⟩
  · omega
  · omega

/-- The chart of a bounded request shows at most two thousand points, of more than five
thousand rows at most one thousand, and no more than the limit of the request if it has one.
The points of more than five thousand rows are combined, by their average if nothing else is
said: the chart shows what those are reduced to that the bounded scan has read.  Bounding
itself only tightens the request, and what has been bounded is not changed by it. -/
theorem optimized_within [Reader] (hs : s.Reachable) (hlimit : ∀ m ∈ r.limit, 0 < m) :
    (∀ series, r.generateOptimized (s.chartSource owner) = .ok series →
      ∃ n : Nat, (s.chartSource owner).count r.plotted = .ok n ∧
        series.shown.length ≤ 2000 ∧ (∀ m ∈ r.limit, (series.shown.length : Int) ≤ m) ∧
        (5000 < n → series.shown.length ≤ 1000 ∧ ∃ (a : Aggregation) (ps : List Point),
          Aggregation.ofName? ((Form.given r.aggregation).getD "avg") = some a ∧
          (r.boundedFor n).scan (s.chartSource owner) = .ok ps ∧ series.Charts r a ps)) ∧
    ∀ r', r.optimize (s.chartSource owner) = .ok r' →
      r.Tightens r' ∧ r'.optimize (s.chartSource owner) = .ok r' := by
  refine ⟨fun series h => ?_, fun r' h => ChartRequest.tightens_of_optimize hlimit h⟩
  obtain ⟨n, hn, hchart⟩ := ChartRequest.exists_count_of_generateOptimized h
  obtain ⟨m, ps, qs, hcount, hscan, hextracted, hx, harranged, hdrawn, hrows, hread⟩ :=
    exists_drawn_of_generate hs hchart
  rw [(ChartRequest.tightens_boundedFor n hlimit).plotted_eq] at hcount
  cases hn.symm.trans hcount
  refine ⟨m, hcount, ?_⟩
  obtain ⟨hfew, hr⟩ | ⟨-, hsome, l, hr, hpos, hl, hbound⟩ | ⟨hmany, l, hr, hpos, hl, hbound⟩ :=
    ChartRequest.boundedFor_cases (m : Int) hlimit
  · -- of few rows there are few points, whatever the limit
    rw [hr] at hread
    refine ⟨by omega, fun k hk => ?_, fun _ => by omega⟩
    rwa [ChartRequest.scanLimit_of_pos hk (hlimit k hk)] at hread
  · rw [hr, ChartRequest.scanLimit_of_pos (l := l) rfl hpos] at hread
    refine ⟨by omega, fun k hk => Int.le_trans hread (hbound k hk), fun _ => by omega⟩
  · rw [hr, ChartRequest.scanLimit_of_pos (l := l) rfl hpos] at hread
    refine ⟨by omega, fun k hk => Int.le_trans hread (hbound k hk), fun _ => ⟨by omega, ?_⟩⟩
    rw [hr] at harranged hdrawn
    obtain ⟨a, ha, hperm⟩ := ChartRequest.perm_arranged hextracted hx
      (ChartRequest.given_getD_avg r) harranged
    exact ⟨a, ps, ha, hscan, ChartRequest.charts_of_arranged hperm hdrawn⟩

/-- Of three rows the limit of the request keeps two, and the number of rows does not change
it. -/
theorem optimized_within_two :
    let u : Upload := ⟨[.text "day", .text "cost"], [[.text "mon", .bool true],
      [.text "tue", .text "$2"], [.text "wed", .text "none"]], false⟩
    let s := empty.run [.ingest (some 1) (some "t") none u]
    let r : ChartRequest :=
      ⟨none, some "day", some "cost", some "line", none, none, some 2, []⟩
    s.Reachable ∧ (∀ m ∈ r.limit, 0 < m) ∧
      (∃ series, r.generateOptimized (s.chartSource (some 1)) = .ok series ∧
        series.shown.map (·.2.1.label) = ["mon", "tue"] ∧ (series.shown.length : Int) ≤ 2) ∧
      ∃ r', r.optimize (s.chartSource (some 1)) = .ok r' ∧ r'.limit = some 2 ∧ r.Tightens r' ∧
        r'.optimize (s.chartSource (some 1)) = .ok r' := by
  intro u s r
  have hs : s.Reachable := ⟨_, rfl⟩
  have hlimit : ∀ m ∈ r.limit, 0 < m := by simp [r]
  obtain ⟨series, hseries, hlabels⟩ :
      ∃ series, r.generateOptimized (s.chartSource (some 1)) = .ok series ∧
        series.shown.map (·.2.1.label) = ["mon", "tue"] :=
    Outcome.of_toOption_map (by decide +kernel)
  obtain ⟨r', hr', hkept⟩ : ∃ r', r.optimize (s.chartSource (some 1)) = .ok r' ∧
      r'.limit = some 2 := Outcome.of_toOption_map (by decide +kernel)
  obtain ⟨n, -, -, hwithin, -⟩ := (optimized_within hs hlimit).1 series hseries
  exact ⟨hs, hlimit, ⟨series, hseries, hlabels, hwithin 2 rfl⟩,
    r', hr', hkept, (optimized_within hs hlimit).2 r' hr'⟩

end Store

end Gridbook
