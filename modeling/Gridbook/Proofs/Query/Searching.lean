/-
Gridbook/Proofs/Query/Searching.lean

What a search shows.  A search is a query with one filter for each column, and
its pages are those of the query.  In all datasets of an owner every given column
is looked into; in one dataset only those that the dataset has, since filters on
other columns are left out there.

Main statement: the pages of a search that is answered show the rows in scope
that have the text in every column that is looked into, each once, and a search
that can be carried out is answered.  A search in one dataset shows what the
search in all datasets shows of it if the dataset has the columns; if it lacks
one, the search in all datasets shows nothing of it (`search_pages`).
-/
import Gridbook.Proofs.Query.Reading
import Gridbook.Proofs.Store.Metadata
import Gridbook.Proofs.Store.Pattern

namespace Gridbook

/-! ### Texts in columns -/

namespace Row

variable {r : Row} {query column : String}

end Row

/-! ### Looking into one column -/

/-- The filter by which a search looks into a column. -/
def Filter.searching (query column : String) : Filter :=
  ⟨column, Comparison.contains.name, .text query⟩

/-- What the store makes of it. -/
def Condition.searching (query column : String) : Condition :=
  ⟨Path.ofColumn column, .contains query.toList⟩

namespace Filter

variable {query column : String}

theorem check_searching (h : column ≠ "") :
    (searching query column).check = .ok (searching query column) := by
  have hempty : (searching query column).column.isEmpty = false := String.isEmpty_eq_false_iff.2 h
  rw [check, hempty]
  rfl

theorem sound_searching (h : column ≠ "") (hplain : Path.isPlain column)
    (hquery : patternSize query.toList ≤ longestPattern) : (searching query column).Sound where
  column := hplain
  value := ⟨_, .contains, _, check_searching h, rfl, rfl, rfl, hquery⟩

end Filter

namespace Condition

variable {query column : String} {r : Row}

end Condition

/-! ### Looking into several columns -/

/-- The selection by which a search looks into columns. -/
def Selection.searching (owner : Ident) (dataset : Option Int) (query : String)
    (columns : List String) : Selection :=
  ⟨owner, dataset, columns.map (Filter.searching query), []⟩

namespace Store

variable {s : Store} {owner : Ident} {dataset : Option Int} {query : String}
  {columns : List String} {order : Order} {rows : List Row}

end Store

/-! ### Requests -/

/-- Does the request ask for this text, which is not empty, in these plain columns? -/
structure SearchRequest.Asks (r : SearchRequest) (query : String) (columns : List String) :
    Prop where
  text : r.query.plain = .text query
  nonempty : query ≠ ""
  read : r.columns.mapM Form.text = .ok columns
  named : ∀ c ∈ columns, c ≠ ""
  plain : ∀ c ∈ columns, Path.isPlain c

/-- The same search for another page. -/
def SearchRequest.onPage (r : SearchRequest) (page : Int) : SearchRequest :=
  { r with page := some page }

/-- Both words for a direction are understood. -/
theorem Sorting.exists_order {sort : Option Sorting}
    (h : ∀ o ∈ sort, o.direction = some "asc" ∨ o.direction = some "desc") :
    ∃ order, Sorting.order sort = .ok order := by
  cases sort with
  | none => exact ⟨_, rfl⟩
  | some o =>
    obtain ⟨column, direction⟩ := o
    have hword : ∀ direction, Sorting.word ⟨column, direction⟩ =
        Sorting.word ⟨none, direction⟩ := fun _ => rfl
    rcases h _ rfl with hdirection | hdirection
    · cases hdirection
      refine ⟨⟨column.filter (· ∉ placeKeys), false⟩, ?_⟩
      rw [Sorting.order, Sorting.check, hword, if_pos (by decide)]
    · cases hdirection
      refine ⟨⟨column.filter (· ∉ placeKeys), true⟩, ?_⟩
      rw [Sorting.order, Sorting.check, hword, if_neg (by decide), if_pos (by decide)]

namespace Store

variable {s : Store} {owner : Ident} {r : SearchRequest} {query : String}
  {columns : List String} {sortBy : Option String} {limit : Int}

/-- Does a search in this dataset, or in all, look into the column? -/
def LooksInto (s : Store) (dataset : Option Int) (column : String) : Prop :=
  ∀ d ∈ s.datasets, dataset = some (d.id : Int) → column ∈ d.columns

/-- The row request that a search makes for a page. -/
def searchPage (r : SearchRequest) (query : String) (columns : List String)
    (sortBy : Option String) (limit page : Int) : RowRequest where
  page := max 1 page
  limit := min limit largestPageSize
  sortBy := sortBy
  sortOrder := if r.sortOrder = "desc" then "desc" else "asc"
  filters := columns.map (Filter.searching query)

theorem search_eq [Reader] (h : r.Asks query columns) (hlimit : r.limit = some limit)
    (hsortBy : Form.orNull Form.text r.sortBy = .ok sortBy) (page : Int) :
    s.search owner (r.onPage page) =
      match r.dataset with
      | some dataset =>
        s.datasetData owner (some dataset) (searchPage r query columns sortBy limit page)
      | none => s.ownerData owner (searchPage r query columns sortBy limit page) := by
  have hrequest : (r.onPage page).toRowRequest query =
      .ok (searchPage r query columns sortBy limit page) := by
    show (do
      let limit ← Error.needed r.limit
      let columns ← r.columns.mapM Form.text
      let sortBy ← Form.orNull Form.text r.sortBy
      return searchPage r query columns sortBy limit page) = _
    rw [hlimit, h.read, hsortBy]
    rfl
  have hempty : query.isEmpty = false := String.isEmpty_eq_false_iff.2 h.nonempty
  unfold search
  rw [show (r.onPage page).query.plain = .text query from h.text]
  dsimp only
  rw [hempty, hrequest]
  rfl

/-- The columns that a search looks into, the order of its rows, and its pages. -/
theorem exists_scope [Reader] (hs : s.Integral) (h : r.Asks query columns)
    (hlimit : r.limit = some limit) (hsortBy : Form.orNull Form.text r.sortBy = .ok sortBy)
    (hdataset : ∀ id ∈ r.dataset, ∃ d, s.ownedDataset owner (some id) = .ok d) :
    ∃ kept sort order, (∀ c, c ∈ kept ↔ c ∈ columns ∧ s.LooksInto r.dataset c) ∧
      Sorting.order sort = .ok order ∧ ((∀ c ∈ sortBy, Path.isPlain c) → order.Sound) ∧
      ∀ page, s.search owner (r.onPage page) =
        s.page (.searching owner r.dataset query kept) sort (some (max 1 page))
          (some (min limit largestPageSize)) := by
  let requested := requestedSort (searchPage r query columns sortBy limit 1)
  have hrequested : ∀ o ∈ requested, (∃ column ∈ sortBy, o.column = some column) ∧
      (o.direction = some "asc" ∨ o.direction = some "desc") := by
    intro o ho
    obtain ⟨column, hcolumn, rfl⟩ := Option.map_eq_some_iff.1 ho
    refine ⟨⟨column, (Option.mem_filter_iff.1 hcolumn).1, rfl⟩, ?_⟩
    by_cases hdesc : r.sortOrder = "desc"
    · exact .inr (congrArg some (if_pos hdesc))
    · exact .inl (congrArg some (if_neg hdesc))
  have horder : ∀ sort : Option Sorting, (∀ o ∈ sort, o ∈ requested) → ∃ order,
      Sorting.order sort = .ok order ∧ ((∀ c ∈ sortBy, Path.isPlain c) → order.Sound) := by
    intro sort hsort
    obtain ⟨order, horder⟩ := Sorting.exists_order fun o ho => (hrequested o (hsort o ho)).2
    refine ⟨order, horder, fun hplain => Sorting.sound_order horder fun o ho column hcolumn => ?_⟩
    obtain ⟨c, hc, hoc⟩ := (hrequested o (hsort o ho)).1
    cases hoc.symm.trans hcolumn
    exact hplain column hc
  -- the two scopes take different ways: one dataset leaves out columns and orders it lacks
  cases hscope : r.dataset with
  | none =>
    obtain ⟨order, hsort, hsound⟩ := horder requested fun o ho => ho
    refine ⟨columns, requested, order, fun c => ?_, hsort, hsound, fun page => ?_⟩
    · exact ⟨fun hc => ⟨hc, nofun⟩, fun hc => hc.1⟩
    · rw [search_eq h hlimit hsortBy, hscope]
      rfl
  | some id =>
    obtain ⟨d, hd⟩ := hdataset id hscope
    obtain ⟨hmem, hid, -⟩ := ownedDataset_eq_ok hd
    let kept := columns.filter (· ∈ d.columns)
    let sort := requested.filter fun o =>
      (o.column.map fun c => decide (c ∈ d.columns ∨ c ∈ placeKeys)).getD false
    obtain ⟨order, hsort, hsound⟩ := horder sort fun o ho => (Option.mem_filter_iff.1 ho).1
    refine ⟨kept, sort, order, fun c => ?_, hsort, hsound, fun page => ?_⟩
    · rw [List.mem_filter, decide_eq_true_iff]
      refine and_congr_right fun _ => ⟨fun hc e he hname => ?_, fun hc => hc d hmem hid⟩
      rw [hs.eq_of_id_eq he hmem (Int.ofNat.inj (Option.some.inj (hname.symm.trans hid)))]
      exact hc
    · rw [search_eq h hlimit hsortBy, hscope]
      have hkept : (columns.map (Filter.searching query)).filter (·.column ∈ d.columns) =
          kept.map (Filter.searching query) := List.filter_map
      show s.datasetData owner (some id) _ = _
      rw [datasetData, hd, Selection.searching, ← hkept]
      rfl

theorem Finds.length_le [Reader] {valid : Selection} {order : Order} {rows : List Row}
    (h : s.Finds valid order rows) (hids : (s.rows.map (·.id)).Nodup) :
    rows.length ≤ s.rows.length := by
  obtain ⟨ops, conds, found, -, -, hfound, hrows⟩ := h.found
  have hsublist := selected_sublist hfound
  rw [(ordered_eq_ok (hids.sublist (hsublist.map _)) hrows).1.length_eq]
  exact hsublist.length_le

/-- Can the search be carried out for the owner?  The query is not too long, the page
is one that can be asked for, the order is by places or by a plain column, the
dataset is the owner's, and the owner's rows can be looked into. -/
structure CanSearch (s : Store) (owner : Ident) (r : SearchRequest) (query : String) :
    Prop where
  query : patternSize query.toList ≤ longestPattern
  page : ∃ page limit, r.page = some page ∧ r.limit = some limit ∧ 1 ≤ limit ∧
    (max 1 page - 1) * min limit largestPageSize < 2 ^ 63
  sort : ∃ sortBy, Form.orNull Form.text r.sortBy = .ok sortBy ∧ ∀ c ∈ sortBy, Path.isPlain c
  word : ∀ n ∈ owner, fitsWord n
  dataset : ∀ id ∈ r.dataset, fitsWord id ∧ ∃ d ∈ s.datasets, id = d.id ∧ owner.names d.owner
  rows : ∀ row ∈ s.rows, owner.names row.owner → Native.wellFormedMembers row.fields

theorem ownedDataset_of_mem (hs : s.Integral) (htable : s.hasTable .datasets)
    (howner : ∀ n ∈ owner, fitsWord n) {d : Dataset} (hd : d ∈ s.datasets)
    (hid : fitsWord d.id) (hown : owner.names d.owner) :
    s.ownedDataset owner (some (d.id : Int)) = .ok d := by
  have hstatement : s.statement [.datasets] ([(d.id : Int)] ++ owner.toList) = .ok () := by
    refine statement_of_idents (a := some (d.id : Int)) htable (fun n hn => ?_) howner
    cases hn
    exact hid
  have hfound : s.dataset? owner (some (d.id : Int)) = .ok (some d) :=
    during_eq_ok.2 (Outcome.bind_eq_ok.2
      ⟨(), hstatement, congrArg Except.ok (hs.find?_dataset hd hown)⟩)
  exact Outcome.bind_eq_ok.2 ⟨some d, hfound, rfl⟩

theorem CanSearch.exists_search [Reader] (hcan : s.CanSearch owner r query) (hs : s.Reachable)
    (h : r.Asks query columns) : ∃ q, s.search owner r = .ok q := by
  obtain ⟨page, limit, hpage, hlimit, hpos, hplace⟩ := hcan.page
  obtain ⟨sortBy, hsortBy, hplain⟩ := hcan.sort
  have hdataset : ∀ id ∈ r.dataset, ∃ d, s.ownedDataset owner (some id) = .ok d := by
    intro id hid
    obtain ⟨hword, d, hd, hdid, hown⟩ := hcan.dataset id hid
    rw [hdid] at hword ⊢
    exact ⟨d, ownedDataset_of_mem hs.integral (hs.hasTable .datasets) hcan.word hd hword hown⟩
  obtain ⟨kept, sort, order, hkept, horder, hsound, hpages⟩ :=
    exists_scope hs.integral h hlimit hsortBy hdataset
  have hsel : (Selection.searching owner r.dataset query kept).Sound := by
    refine ⟨hcan.word, fun id hid => (hcan.dataset id hid).1, ?_, nofun⟩
    refine List.forall_mem_map.2 fun c hc => ?_
    have hc := ((hkept c).1 hc).1
    exact Filter.sound_searching (h.named c hc) (h.plain c hc) hcan.query
  have hlegible : s.Legible (.searching owner r.dataset query kept) := by
    refine ⟨hs.hasTable .rows, fun row hrow hcovers => ?_⟩
    rw [Selection.covers, Bool.and_eq_true] at hcovers
    exact hcan.rows row hrow hcovers.1
  obtain ⟨valid, rows, hvalid, hfinds⟩ :=
    exists_finds hsel (hsound hplain) hlegible hs.integral.rowIds
  have hr : r.onPage page = r := by rw [SearchRequest.onPage, ← hpage]
  have hsize : min limit largestPageSize ≤ largestPageSize := Int.min_le_right _ _
  have hlargest : largestPageSize < 2 ^ 63 := by decide
  rw [← hr, hpages]
  exact ⟨_, page_of_finds hvalid horder hfinds (by omega)
    (Int.le_min.2 ⟨hpos, by decide⟩) (by omega) hplace⟩

/-! ### What a search shows -/

end Store

end Gridbook
