/-
Gridbook/Proofs/Store/Answering.lean

When the store has an answer.  A condition that looks for a value in a plain
column can be tested on every row that can be looked into.  So a selection whose
filters are in order and whose columns are plain finds its rows, in any order,
wherever no row is in the way (`Legible`).

Main statements: what a sound selection finds (`exists_found`, `exists_finds`),
and what a sample shows (`exists_sample`).
-/
import Gridbook.Proofs.Query.Paging
import Gridbook.Proofs.Store.Lookup

namespace Gridbook

/-! ### Conditions that can be tested -/

/-- Does the condition look for a value in this column?  It can be tested on
every scalar, and null does not pass. -/
structure Condition.Tests (c : Condition) (column : String) : Prop where
  plain : Path.isPlain column
  path : c.path = Path.ofColumn column
  answers : ∀ v, ∃ b, Condition.passes v c.test = .ok b
  null : Condition.passes .null c.test = .ok false

namespace Condition

variable {c : Condition} {column : String} {fields : Fields}

theorem Tests.holds_eq [Reader] (h : c.Tests column) (hfields : Native.wellFormedMembers fields) :
    c.holds fields = passes (.ofCell (fields.cell column)) c.test := by
  rw [holds, h.path, Native.extract_of_plain h.plain hfields]
  rfl

theorem Tests.exists_holds [Reader] (h : c.Tests column)
    (hfields : Native.wellFormedMembers fields) :
    ∃ b, c.holds fields = .ok b := by
  rw [h.holds_eq hfields]
  exact h.answers _

/-- A row without a value in the column does not meet the condition. -/
theorem Tests.holds_of_null [Reader] (h : c.Tests column)
    (hfields : Native.wellFormedMembers fields)
    (hnull : fields.cell column = .null) : c.holds fields = .ok false := by
  rw [h.holds_eq hfields, hnull]
  exact h.null

theorem tests_present (h : Path.isPlain column) : (present column).Tests column where
  plain := h
  path := rfl
  answers _ := ⟨_, rfl⟩
  null := rfl

theorem exists_allHold [Reader] {conds : List Condition} (h : ∀ c ∈ conds, ∃ column, c.Tests column)
    (hfields : Native.wellFormedMembers fields) : ∃ b, allHold fields conds = .ok b := by
  induction conds with
  | nil => exact ⟨true, rfl⟩
  | cons c conds ih =>
    obtain ⟨column, hc⟩ := h c List.mem_cons_self
    obtain ⟨b, hb⟩ := hc.exists_holds hfields
    cases b with
    | false => exact ⟨false, Outcome.bind_eq_ok.2 ⟨false, hb, rfl⟩⟩
    | true =>
      obtain ⟨b, hconds⟩ := ih fun c' hc' => h c' (List.mem_cons_of_mem c hc')
      exact ⟨b, Outcome.bind_eq_ok.2 ⟨true, hb, hconds⟩⟩

end Condition

/-! ### Sound filters -/

/-- Can a search of this test be carried out? -/
def Test.Bounded : Test → Prop
  | .contains needle => patternSize needle ≤ longestPattern
  | _ => True

/-- Is the filter in order: a plain column, an operator, and a value that the
operator can take and the store can search for? -/
structure Filter.Sound (f : Filter) : Prop where
  column : Path.isPlain f.column
  value : ∃ valid op test, f.check = .ok valid ∧ Comparison.ofName? f.operator = some op ∧
    Selection.isSearchable valid op ∧ Test.bind op valid.value = .ok test ∧ test.Bounded

namespace Filter

/-- A filter that passes its check has a value that is read as a number, if its operator needs
one, and any other value but null, if not. -/
theorem operator_of_check {f valid : Filter} (h : f.check = .ok valid) :
    ∃ op, Comparison.ofName? f.operator = some op ∧
      (op.isNumeric ∧ (∃ x, f.bound = .ok x ∧ valid = { f with value := .number (.real x) }) ∨
        ¬ op.isNumeric ∧ f.value.isNull = false ∧ valid = f) := by
  unfold check at h
  split at h
  · cases h
  split at h
  · cases h
  next op hop =>
  refine ⟨op, hop, ?_⟩
  split at h
  · next hnumeric =>
    obtain ⟨x, hx, rfl⟩ := Outcome.map_eq_ok.1 h
    exact .inl ⟨hnumeric, x, hx, rfl⟩
  · next hnumeric =>
    split at h
    · cases h
    next hnull =>
    cases h
    exact .inr ⟨hnumeric, Bool.eq_false_iff.2 hnull, rfl⟩

/-- Checking a filter can change its value only, and null is no value for an
operator that does not read it as a number. -/
theorem check_eq_ok {f valid : Filter} (h : f.check = .ok valid) :
    valid.column = f.column ∧ valid.operator = f.operator ∧
      ∀ op, Comparison.ofName? f.operator = some op → op.isNumeric ∨ valid.value.isNull = false := by
  obtain ⟨op, hop, ⟨hnumeric, x, -, rfl⟩ | ⟨-, hnull, rfl⟩⟩ := operator_of_check h
  · refine ⟨rfl, rfl, fun op' hop' => .inl ?_⟩
    cases hop.symm.trans hop'
    exact hnumeric
  · exact ⟨rfl, rfl, fun _ _ => .inr hnull⟩

/-- A value that can be bound can be converted for its comparison. -/
theorem isComparable_of_bind {op : Comparison} {v : Cell} {test : Test}
    (h : Test.bind op v = .ok test) : Test.isComparable op v := by
  cases op with
  | equal => rfl
  | contains => rfl
  | greater =>
    obtain ⟨w, hw, -⟩ := Outcome.map_eq_ok.1 h
    rw [Test.isComparable, hw]
    rfl
  | less =>
    obtain ⟨w, hw, -⟩ := Outcome.map_eq_ok.1 h
    rw [Test.isComparable, hw]
    rfl

/-- Every scalar can be tested, and null passes no test but the one for null. -/
theorem passes_of_bind {op : Comparison} {v : Cell} {test : Test} (h : Test.bind op v = .ok test)
    (hv : op.isNumeric ∨ v.isNull = false) (hbounded : test.Bounded) :
    (∀ w, ∃ b, Condition.passes w test = .ok b) ∧ Condition.passes .null test = .ok false := by
  cases op with
  | equal =>
    have hnull := hv.resolve_left Bool.false_ne_true
    rw [Test.bind, if_neg (Bool.eq_false_iff.1 hnull)] at h
    obtain ⟨w, -, rfl⟩ := Outcome.map_eq_ok.1 h
    exact ⟨fun v => ⟨_, rfl⟩, rfl⟩
  | greater =>
    obtain ⟨w, -, rfl⟩ := Outcome.map_eq_ok.1 h
    exact ⟨fun v => ⟨_, rfl⟩, by cases w <;> rfl⟩
  | less =>
    obtain ⟨w, -, rfl⟩ := Outcome.map_eq_ok.1 h
    exact ⟨fun v => ⟨_, rfl⟩, rfl⟩
  | contains =>
    cases h
    have hsize : ¬ longestPattern < patternSize v.label.toList := Nat.not_lt.2 hbounded
    refine ⟨fun w => ⟨(w.toText?.map (Condition.matchesSearch v.label.toList)).getD false, ?_⟩, ?_⟩
    · rw [Condition.passes, if_neg hsize]
    · rw [Condition.passes, if_neg hsize]
      rfl

end Filter

namespace Selection

/-- Does the selection ask for something that there can be: an owner and a
dataset by numbers that the store has, sound filters, and plain columns? -/
structure Sound (sel : Selection) : Prop where
  owner : ∀ n ∈ sel.owner, fitsWord n
  dataset : ∀ n ∈ sel.dataset, fitsWord n
  filters : ∀ f ∈ sel.filters, f.Sound
  required : ∀ column ∈ sel.required, Path.isPlain column

/-- Has the selection a filter on this column, or must the column have a value? -/
def Mentions (sel : Selection) (column : String) : Prop :=
  (∃ f ∈ sel.filters, f.column = column) ∨ column ∈ sel.required

end Selection

/-- Sound filters become conditions on their columns. -/
theorem Filter.exists_conditions {fs : List Filter} (h : ∀ f ∈ fs, f.Sound) :
    ∃ valids ops conds, fs.mapM check = .ok valids ∧
      Selection.comparisons ⟨none, none, valids, []⟩ = .ok ops ∧
      (ops.all fun f => Test.isComparable f.2 f.1.value) ∧
      ops.mapM (fun f => Condition.ofFilter f.1 f.2) = .ok conds ∧
      (∀ c ∈ conds, ∃ column, c.Tests column) ∧ ∀ f ∈ fs, ∃ c ∈ conds, c.Tests f.column := by
  induction fs with
  | nil =>
    exact ⟨[], [], [], rfl, rfl, rfl, rfl, fun _ h => absurd h List.not_mem_nil,
      fun _ h => absurd h List.not_mem_nil⟩
  | cons f fs ih =>
    obtain ⟨valids, ops, conds, hvalids, hops, hcomparable, hconds, htests, htested⟩ :=
      ih fun g hg => h g (List.mem_cons_of_mem f hg)
    obtain ⟨hplain, valid, op, test, hvalid, hop, hsearchable, htest, hbounded⟩ :=
      h f List.mem_cons_self
    obtain ⟨hcolumn, hoperator, hvalue⟩ := check_eq_ok hvalid
    obtain ⟨hanswers, hnull⟩ := passes_of_bind htest (hvalue op hop) hbounded
    have hc : Condition.Tests ⟨Path.ofColumn f.column, test⟩ f.column :=
      ⟨hplain, rfl, hanswers, hnull⟩
    refine ⟨valid :: valids, (valid, op) :: ops, ⟨Path.ofColumn f.column, test⟩ :: conds,
      ?_, ?_, ?_, ?_, ?_, ?_⟩
    · exact Outcome.mapM_eq_ok.2 (.cons hvalid (Outcome.mapM_eq_ok.1 hvalids))
    · refine Outcome.mapM_eq_ok.2 (.cons ?_ (Outcome.mapM_eq_ok.1 hops))
      rw [hoperator, hop]
      exact if_pos hsearchable
    · rw [List.all_cons, isComparable_of_bind htest, hcomparable]
      rfl
    · refine Outcome.mapM_eq_ok.2 (.cons ?_ (Outcome.mapM_eq_ok.1 hconds))
      rw [Condition.ofFilter, htest, hcolumn]
      rfl
    · exact List.forall_mem_cons.2 ⟨⟨f.column, hc⟩, htests⟩
    · refine List.forall_mem_cons.2 ⟨⟨_, List.mem_cons_self, hc⟩, fun g hg => ?_⟩
      obtain ⟨c', hc', hg⟩ := htested g hg
      exact ⟨c', List.mem_cons_of_mem _ hc', hg⟩

/-- Is the order one by places, or by a column with a plain name? -/
def Order.Sound (order : Order) : Prop :=
  ∀ column, Form.given order.column = some column → Path.isPlain column

/-- An order that is asked for by plain columns is sound. -/
theorem Sorting.sound_order {sort : Option Sorting} {order : Order}
    (h : Sorting.order sort = .ok order)
    (hplain : ∀ o ∈ sort, ∀ column ∈ o.column, Path.isPlain column) : order.Sound := by
  intro column hgiven
  have hmem := (Option.mem_filter_iff.1 hgiven).1
  cases sort with
  | none =>
    cases h
    cases hmem
  | some o =>
    have hcolumn : order.column = o.column.filter (· ∉ placeKeys) := by
      unfold Sorting.order Sorting.check at h
      dsimp only at h
      split at h
      · cases h
        rfl
      split at h
      · cases h
        rfl
      · cases h
    rw [hcolumn] at hmem
    exact hplain o rfl column (Option.mem_filter_iff.1 hmem).1

namespace Store

variable {s : Store} {sel valid : Selection} {conds : List Condition} {rows : List Row}
  {column : String}

/-- Can the rows that a selection covers be looked into? -/
structure Legible (s : Store) (sel : Selection) : Prop where
  table : s.hasTable .rows
  rows : ∀ r ∈ s.rows, sel.covers r → Native.wellFormedMembers r.fields

/-! ### Selecting -/

/-- A statement on one table can be put if its two numbers, where there are any, fit
words. -/
theorem statement_of_idents {t : Table} (ht : s.hasTable t) {a b : Ident}
    (ha : ∀ n ∈ a, fitsWord n) (hb : ∀ n ∈ b, fitsWord n) :
    s.statement [t] (a.toList ++ b.toList) = .ok () := by
  refine statement_eq_ok.2 ⟨List.forall_mem_singleton.2 ht, fun n hn => ?_⟩
  rcases List.mem_append.1 hn with hn | hn
  · exact ha n (Option.mem_toList.1 hn)
  · exact hb n (Option.mem_toList.1 hn)

theorem exists_meeting [Reader] (hconds : ∀ c ∈ conds, ∃ column, c.Tests column)
    (hrows : ∀ r ∈ rows, Native.wellFormedMembers r.fields) :
    ∃ out, meeting conds rows = .ok out := by
  induction rows with
  | nil => exact ⟨[], rfl⟩
  | cons r rows ih =>
    obtain ⟨b, hb⟩ := Condition.exists_allHold hconds (hrows r List.mem_cons_self)
    obtain ⟨rest, hrest⟩ := ih fun r' hr' => hrows r' (List.mem_cons_of_mem r hr')
    exact ⟨_, Outcome.bind_eq_ok.2 ⟨b, hb, Outcome.bind_eq_ok.2 ⟨rest, hrest, rfl⟩⟩⟩

/-- A sound selection finds rows where they can be looked into, and tests every
column that it mentions. -/
theorem exists_found [Reader] (hsel : sel.Sound) (hs : s.Legible sel) :
    ∃ valid ops conds found, checked sel = .ok valid ∧ valid.comparisons = .ok ops ∧
      s.conditions valid ops = .ok conds ∧ s.selected valid conds = .ok found ∧
      (∀ r ∈ found, r ∈ s.rows ∧ sel.covers r ∧ ∀ c ∈ conds, c.holds r.fields = .ok true) ∧
      ∀ column, sel.Mentions column → ∃ c ∈ conds, c.Tests column := by
  obtain ⟨valids, ops, filters, hvalids, hops, hcomparable, hfilters, htests, htested⟩ :=
    Filter.exists_conditions hsel.filters
  have hstatement : s.statement [.rows] (sel.owner.toList ++ sel.dataset.toList) = .ok () :=
    statement_of_idents hs.table hsel.owner hsel.dataset
  have hconds : ∀ c ∈ filters ++ sel.required.map Condition.present, ∃ column, c.Tests column := by
    intro c hc
    rcases List.mem_append.1 hc with hc | hc
    · exact htests c hc
    · obtain ⟨column, hcolumn, rfl⟩ := List.mem_map.1 hc
      exact ⟨column, Condition.tests_present (hsel.required column hcolumn)⟩
  have hcovered : ∀ r ∈ s.rows.filter sel.covers, Native.wellFormedMembers r.fields :=
    fun r hr => hs.rows r (List.mem_filter.1 hr).1 (List.mem_filter.1 hr).2
  obtain ⟨found, hfound⟩ := exists_meeting hconds hcovered
  refine ⟨{ sel with filters := valids }, ops, _, found, ?_, hops, ?_, hfound, fun r hr => ?_, ?_⟩
  · exact Outcome.bind_eq_ok.2 ⟨valids, hvalids, rfl⟩
  · unfold conditions
    rw [hcomparable]
    refine Outcome.bind_eq_ok.2 ⟨(), hstatement, ?_⟩
    exact Outcome.bind_eq_ok.2 ⟨filters, hfilters, rfl⟩
  · obtain ⟨hr, hall⟩ := (mem_meeting hfound r).1 hr
    exact ⟨(List.mem_filter.1 hr).1, (List.mem_filter.1 hr).2, hall⟩
  · rintro column (⟨f, hf, rfl⟩ | hcolumn)
    · obtain ⟨c, hc, hf⟩ := htested f hf
      exact ⟨c, List.mem_append_left _ hc, hf⟩
    · exact ⟨_, List.mem_append_right _ (List.mem_map_of_mem hcolumn),
        Condition.tests_present (hsel.required column hcolumn)⟩

/-- Nothing is found by a column that no row has a value in. -/
theorem rowCount_of_null [Reader] (hsel : sel.Sound) (hs : s.Legible sel)
    (hmentions : sel.Mentions column)
    (hnull : ∀ r ∈ s.rows, sel.covers r → r.fields.cell column = .null) :
    s.rowCount sel = .ok 0 := by
  obtain ⟨valid, ops, conds, found, hvalid, hops, hconds, hfound, hrows, htests⟩ :=
    exists_found hsel hs
  obtain ⟨c, hc, hcolumn⟩ := htests column hmentions
  have hnone : found = [] := by
    refine List.eq_nil_iff_forall_not_mem.2 fun r hr => ?_
    obtain ⟨hr, hcovers, hall⟩ := hrows r hr
    have hfalse := hcolumn.holds_of_null (hs.rows r hr hcovers) (hnull r hr hcovers)
    cases hfalse.symm.trans (hall c hc)
  have hcount : s.count valid = .ok 0 :=
    count_eq_ok.2 ⟨ops, conds, found, hops, hconds, hfound, congrArg List.length hnone⟩
  exact rowCount_eq_ok.2 ⟨valid, hvalid, hcount⟩

/-! ### Order -/

/-- The scalars of a plain column are those of the rows' cells. -/
theorem keyed_of_plain [Reader] (h : Path.isPlain column)
    (hrows : ∀ r ∈ rows, Native.wellFormedMembers r.fields) :
    rows.mapM (withKey (Path.ofColumn column)) =
      .ok (rows.map fun r => (.ofCell (r.fields.cell column), r)) := by
  refine Outcome.mapM_of_forall fun r hr => ?_
  rw [withKey, Native.extract_of_plain h (hrows r hr)]
  rfl

theorem exists_ordered [Reader] {order : Order} (horder : order.Sound)
    (hrows : ∀ r ∈ rows, Native.wellFormedMembers r.fields) :
    ∃ out, ordered order rows = .ok out := by
  unfold ordered
  rcases hcolumn : Form.given order.column with - | column
  · exact ⟨_, rfl⟩
  · have hplaced : ∀ r ∈ byPlace rows, Native.wellFormedMembers r.fields :=
      fun r hr => hrows r ((perm_sortBy _ rows).mem_iff.1 hr)
    have hkeyed := keyed_of_plain (horder column hcolumn) hplaced
    exact ⟨_, Outcome.bind_eq_ok.2 ⟨_, hkeyed, rfl⟩⟩

theorem given_of_ne_empty (h : column ≠ "") : Form.given (some column) = some column := by
  rw [Form.given, Option.filter_some, String.isEmpty_eq_false_iff.2 h]
  rfl

/-- A plain column sorts the rows, as they stand by their places, by its cells. -/
theorem ordered_of_plain [Reader] (h : Path.isPlain column) (hcolumn : column ≠ "")
    (descending : Bool) (hrows : ∀ r ∈ rows, Native.wellFormedMembers r.fields) :
    ordered ⟨some column, descending⟩ rows =
      .ok (sortBy (fun a b => (Order.keyCompare ⟨some column, descending⟩
        (.ofCell (a.fields.cell column)) (.ofCell (b.fields.cell column))).isLE)
        (byPlace rows)) := by
  have hplaced : ∀ r ∈ byPlace rows, Native.wellFormedMembers r.fields :=
    fun r hr => hrows r ((perm_sortBy _ rows).mem_iff.1 hr)
  unfold ordered
  rw [given_of_ne_empty hcolumn]
  refine Outcome.bind_eq_ok.2 ⟨_, keyed_of_plain h hplaced, ?_⟩
  show Except.ok (List.map (·.2) (sortBy (fun a b : Native × Row => (fun v w : Native =>
    if descending then (w.compare v).isLE else (v.compare w).isLE) a.1 b.1) _)) = _
  rw [Order.inOrder_eq ⟨some column, descending⟩, map_sortBy, List.map_map]
  exact congrArg Except.ok (List.map_id _)

/-- A plain column that no row has a value in leaves the rows by their places. -/
theorem ordered_of_null [Reader] (h : Path.isPlain column) (hcolumn : column ≠ "")
    (descending : Bool)
    (hrows : ∀ r ∈ rows, Native.wellFormedMembers r.fields ∧ r.fields.cell column = .null) :
    ordered ⟨some column, descending⟩ rows = .ok (byPlace rows) := by
  rw [ordered_of_plain h hcolumn descending fun r hr => (hrows r hr).1]
  -- all rows have the key null, so any two may stand either way
  refine congrArg Except.ok (sortBy_eq_self (p := fun r => (r.fields.cell column).isNull) ?_ ?_)
  · intro a b ha hb
    rw [Cell.eq_null_of_isNull ha, Cell.eq_null_of_isNull hb]
    cases descending <;> rfl
  · intro r hr
    rw [(hrows r ((perm_sortBy _ rows).mem_iff.1 hr)).2]
    rfl

/-- A sound selection finds its rows in every sound order. -/
theorem exists_finds [Reader] {order : Order} (hsel : sel.Sound) (horder : order.Sound)
    (hs : s.Legible sel) (hids : (s.rows.map (·.id)).Nodup) :
    ∃ valid rows, checked sel = .ok valid ∧ s.Finds valid order rows := by
  obtain ⟨valid, ops, conds, found, hvalid, hops, hconds, hfound, hrows, -⟩ := exists_found hsel hs
  have hfine : ∀ r ∈ found, Native.wellFormedMembers r.fields :=
    fun r hr => hs.rows r (hrows r hr).1 (hrows r hr).2.1
  obtain ⟨rows, hordered⟩ := exists_ordered horder hfine
  have hlength := (ordered_eq_ok (hids.sublist ((selected_sublist hfound).map _)) hordered).1.length_eq
  have hcount : s.count valid = .ok rows.length :=
    count_eq_ok.2 ⟨ops, conds, found, hops, hconds, hfound, hlength.symm⟩
  exact ⟨valid, rows, hvalid, hs.table, hcount, ops, conds, found, hops, hconds, hfound, hordered⟩

/-! ### Samples -/

/-- A plain column can be sampled, and the sample shows values that rows of the
dataset have. -/
theorem exists_sample [Reader] {dataset : Ident} {limit : Option Int}
    (hcolumn : Path.isPlain column)
    (hdataset : ∀ n ∈ dataset, fitsWord n) (hlimit : ∀ n ∈ limit, fitsWord n)
    (htable : s.hasTable .rows)
    (hrows : ∀ r ∈ s.rows, dataset.names r.dataset → Native.wellFormedMembers r.fields) :
    ∃ cells, s.sample dataset column limit = .ok cells ∧
      ∀ c ∈ cells, c.isNull = false ∧
        ∃ r ∈ s.rows, dataset.names r.dataset ∧ r.fields.cell column = c := by
  have hstatement : s.statement [.rows] (dataset.toList ++ limit.toList) = .ok () :=
    statement_of_idents htable hdataset hlimit
  have htests : ∀ c ∈ [Condition.present column], ∃ column, c.Tests column :=
    List.forall_mem_singleton.2 ⟨column, Condition.tests_present hcolumn⟩
  have hnamed : ∀ r ∈ s.rows.filter fun r => dataset.names r.dataset,
      Native.wellFormedMembers r.fields := by
    intro r hr
    obtain ⟨hr, hnames⟩ := List.mem_filter.1 hr
    exact hrows r hr hnames
  obtain ⟨found, hfound⟩ := exists_meeting htests hnamed
  by_cases hzero : limit = some 0
  · refine ⟨[], during_eq_ok.2 (Outcome.bind_eq_ok.2 ⟨(), hstatement, if_pos hzero⟩), ?_⟩
    exact fun c hc => absurd hc List.not_mem_nil
  · let shown := window (limit.getD (-1)) 0 (sortBy (fun a b => decide (a.index ≤ b.index)) found)
    refine ⟨(shown.map (·.fields.cell column)).filter (!·.isNull), during_eq_ok.2 ?_, ?_⟩
    · refine Outcome.bind_eq_ok.2 ⟨(), hstatement, ?_⟩
      rw [if_neg hzero]
      exact Outcome.bind_eq_ok.2 ⟨found, hfound, rfl⟩
    · intro c hc
      obtain ⟨hc, hnull⟩ := List.mem_filter.1 hc
      obtain ⟨r, hr, rfl⟩ := List.mem_map.1 hc
      have hfound' := (perm_sortBy _ found).mem_iff.1 ((window_isInfix _ _ _).subset hr)
      obtain ⟨hmem, hnames⟩ := List.mem_filter.1 ((mem_meeting hfound r).1 hfound').1
      exact ⟨by simpa using hnull, r, hmem, hnames, rfl⟩

/-! ### Columns that no row has -/

/-- Names that are plain, and only those, are opaque: whatever the fields of a
row, the name leads to the field of that name, and to null if there is none.  So
what is asked of a plain column that no row has is answered: no row is found by
it, it orders nothing, and its sample is empty. -/
theorem column_opaque_iff_plain [Reader] (column : String) :
    ((∀ fields : Fields, Native.wellFormedMembers fields →
        Native.extract (Path.ofColumn column) fields = .ok (.ofCell (fields.cell column))) ↔
      Path.isPlain column) ∧
    (Path.isPlain column → ∀ s : Store, s.hasTable .rows →
      (∀ sel : Selection, sel.Sound → sel.Mentions column →
        (∀ r ∈ s.rows, sel.covers r →
          Native.wellFormedMembers r.fields ∧ r.fields.lookup column = none) →
        s.rowCount sel = .ok 0) ∧
      (∀ rows descending, column ≠ "" →
        (∀ r ∈ rows, Native.wellFormedMembers r.fields ∧ r.fields.lookup column = none) →
        ordered ⟨some column, descending⟩ rows = .ok (byPlace rows)) ∧
      ∀ dataset limit : Option Int, (∀ n ∈ dataset, fitsWord n) → (∀ n ∈ limit, fitsWord n) →
        (∀ r ∈ s.rows, Ident.names dataset r.dataset →
          Native.wellFormedMembers r.fields ∧ r.fields.lookup column = none) →
        s.sample dataset column limit = .ok []) := by
  have hcell : ∀ {fields : Fields}, fields.lookup column = none → fields.cell column = .null := by
    intro fields h
    rw [Fields.cell, h]
    rfl
  refine ⟨Native.extract_iff_plain column, fun hplain s htable => ⟨?_, ?_, ?_⟩⟩
  · intro sel hsel hmentions hrows
    exact rowCount_of_null hsel ⟨htable, fun r hr hcovers => (hrows r hr hcovers).1⟩ hmentions
      fun r hr hcovers => hcell (hrows r hr hcovers).2
  · intro rows descending hne hrows
    exact ordered_of_null hplain hne descending fun r hr =>
      ⟨(hrows r hr).1, hcell (hrows r hr).2⟩
  · intro dataset limit hdataset hlimit hrows
    obtain ⟨cells, hsample, hcells⟩ := exists_sample hplain hdataset hlimit htable
      fun r hr hnames => (hrows r hr hnames).1
    have hnone : cells = [] := by
      refine List.eq_nil_iff_forall_not_mem.2 fun c hc => ?_
      obtain ⟨hnull, r, hr, hnames, rfl⟩ := hcells c hc
      rw [hcell (hrows r hr hnames).2] at hnull
      cases hnull
    rw [hsample, hnone]

/-- One row with a value in one column, and another column asked for. -/
theorem column_opaque_iff_plain_absent :
    let s := empty.run [.ingest (some 1) (some "t") none ⟨[.text "a"], [[.bool true]], false⟩]
    Native.extract (Path.ofColumn "a") [("a", .bool true)] = .ok (.number (.whole 1)) ∧
      s.rowCount ⟨some 1, none, [], ["b"]⟩ = .ok 0 ∧ s.sample (some 1) "b" none = .ok [] := by
  intro s
  have hone : ∀ n ∈ some (1 : Int), fitsWord n := by
    intro n hn
    cases hn
    decide
  have hnone : ∀ n ∈ (none : Option Int), fitsWord n := nofun
  have hrows : ∀ r ∈ s.rows, Native.wellFormedMembers r.fields ∧ r.fields.lookup "b" = none := by
    intro r hr
    rw [List.mem_singleton.1 hr]
    exact ⟨rfl, rfl⟩
  obtain ⟨hcount, -, hsample⟩ := (column_opaque_iff_plain "b").2 (by decide) s rfl
  refine ⟨(column_opaque_iff_plain "a").1.2 (by decide) _ rfl, ?_, ?_⟩
  · refine hcount _ ⟨hone, hnone, nofun, ?_⟩ (.inr List.mem_cons_self) fun r hr _ => hrows r hr
    exact List.forall_mem_singleton.2 (by decide)
  · exact hsample (some 1) none hone hnone fun r hr _ => hrows r hr

/-- A name with a quote in it ends the key: what follows leads into a field, or
nowhere, and then the statement fails.  A character beyond ASCII does not find
itself, and its escape finds it. -/
theorem quoted_column_not_opaque :
    (∃ e, Native.extract (Path.ofColumn "a\"") [("a", .bool true)] = .error e) ∧
    Native.extract (Path.ofColumn "a\".\"b") [("a", .object [("b", .bool true)])] =
      .ok (.number (.whole 1)) ∧
    Native.extract (Path.ofColumn "é") [("é", .bool true)] = .ok .null ∧
    Native.extract (Path.ofColumn "\\u00e9") [("é", .bool true)] = .ok (.number (.whole 1)) ∧
    (empty.run [.ingest (some 1) (some "t") none ⟨[.text "a"], [[.bool true]], false⟩]).rowCount
      ⟨some 1, none, [], ["a\""]⟩ = .error (.storage .countRows) := by
  have hquote : Path.ofColumn "a\"" = [.key ['a'], .broken] := by decide +kernel
  have hinner : Path.ofColumn "a\".\"b" = [.key ['a'], .key ['b']] := by decide +kernel
  have hletter : Path.ofColumn "é" = [.key ['é']] := by decide +kernel
  have hescape : Path.ofColumn "\\u00e9" = [.key ['\\', 'u', '0', '0', 'e', '9']] := by
    decide +kernel
  refine ⟨⟨.failed, ?_⟩, ?_, ?_, ?_, ?_⟩
  · rw [hquote]; rfl
  · rw [hinner]; rfl
  · rw [hletter]; rfl
  · rw [hescape]; rfl
  · -- the row count is that of the rows that meet the one condition
    show during .countRows ((meeting [⟨Path.ofColumn "a\"", .isPresent⟩]
      [⟨1, 1, 1, 0, [("a", .bool true)], empty.clock + 1⟩]).map List.length) = _
    rw [hquote]
    rfl

end Store

end Gridbook
