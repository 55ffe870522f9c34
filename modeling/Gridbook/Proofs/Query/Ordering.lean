/-
Gridbook/Proofs/Query/Ordering.lean

Orders of rows.  The rows that a selection finds are the same in every order, and
whether they can be fetched does not depend on it.  A column sorts them by its fields,
upwards or downwards, and rows with equal fields stay by their places; without a column
the downward order is the upward one from its end.  Fields that are numbers are sorted by
what the store reads them as, which is not far from what they are.

Main statements: the pages in an order by a column show the stable sort of what the
pages without an order show (`fetch_sorted`), and a dataset's data is sorted by every
column of the dataset but those whose names stand for the places (`datasetData_sorted`).
-/
import Gridbook.Proofs.Query.Searching
import Gridbook.Proofs.Store.Reader

namespace Gridbook

/-! ### The order of fields -/

namespace Cell

/-- Fields are sorted by their kinds first: nothing, then numbers and truth values,
then all others by a text. -/
def sortKind : Cell → Nat
  | null => 0
  | bool _ => 1
  | number _ => 1
  | _ => 2

/-- The number that a field is sorted by: a truth value is one or zero, and a number is
what the store reads it as. -/
def sortNumber [reader : Reader] : Cell → Number
  | bool b => .whole (if b then 1 else 0)
  | number n => reader.number n
  | _ => .whole 0

/-- The text that a field is sorted by, which ends at its first NUL; of a list or an
object it is the JSON text. -/
def sortText : Cell → String
  | null => ""
  | bool _ => ""
  | number _ => ""
  | text s => String.ofList (s.toList.takeWhile (· != '\x00'))
  | c => String.ofList (Json.compact c)

/-- Comparison of fields: by kind, then by the numbers that are read or by code points. -/
def sortCompare [Reader] (a b : Cell) : Ordering :=
  (compare a.sortKind b.sortKind).then
    ((a.sortNumber.compare b.sortNumber).then (compare a.sortText b.sortText))

theorem ofCell_eq [Reader] (c : Cell) :
    Native.ofCell c =
      match c.sortKind with
      | 0 => .null
      | 1 => .number c.sortNumber
      | _ => .text c.sortText.toList := by
  cases c with
  | null => rfl
  | bool b => rfl
  | number n => cases n <;> rfl
  | text s => exact congrArg Native.text String.toList_ofList.symm
  | list items => exact congrArg Native.text String.toList_ofList.symm
  | object members => exact congrArg Native.text String.toList_ofList.symm
  | typed t => exact congrArg Native.text String.toList_ofList.symm

/-- The store compares the scalars of fields as the fields are to be sorted. -/
theorem compare_ofCell [Reader] (a b : Cell) :
    (Native.ofCell a).compare (Native.ofCell b) = a.sortCompare b := by
  rw [ofCell_eq, ofCell_eq, sortCompare]
  -- of one kind the other key is the same, and two kinds are compared by themselves
  cases a <;> cases b <;> first
    | (simp [sortKind, sortNumber, sortText, Native.compare, Std.ReflCmp.compare_self]; done)
    | rfl

end Cell

/-- Comparison of rows by their fields in a column. -/
def Row.compareBy [Reader] (column : String) (a b : Row) : Ordering :=
  (a.fields.cell column).sortCompare (b.fields.cell column)

namespace Store

variable {s : Store} {sel : Selection} {order : Order} {column : String} {rows : List Row}

instance [Reader] : Std.TransCmp (Row.compareBy column) := by
  have hcmp : Row.compareBy column = fun a b =>
      Native.compare (.ofCell (a.fields.cell column)) (.ofCell (b.fields.cell column)) := by
    funext a b
    exact (Cell.compare_ofCell _ _).symm
  rw [hcmp]
  exact transCmp_of_key fun r : Row => Native.ofCell (r.fields.cell column)

/-- A plain column sorts rows upwards and downwards. -/
theorem exists_stableSort [Reader] (h : Path.isPlain column) (hcolumn : column ≠ "")
    (hrows : ∀ r ∈ rows, Native.wellFormedMembers r.fields) :
    (∃ up, ordered ⟨some column, false⟩ rows = .ok up ∧
      StableSort (Row.compareBy column) (byPlace rows) up) ∧
    ∃ down, ordered ⟨some column, true⟩ rows = .ok down ∧
      StableSort (fun a b => Row.compareBy column b a) (byPlace rows) down := by
  constructor
  · refine ⟨_, ordered_of_plain h hcolumn false hrows, ?_⟩
    simp only [Order.keyCompare, Cell.compare_ofCell]
    exact stableSort_sortBy (byPlace rows)
  · refine ⟨_, ordered_of_plain h hcolumn true hrows, ?_⟩
    simp only [Order.keyCompare, Cell.compare_ofCell]
    exact @stableSort_sortBy _ (fun a b => Row.compareBy column b a) _ (byPlace rows)

/-! ### What does not depend on the order -/

theorem selected_legible [Reader] (hs : s.Legible sel) {conds : List Condition} {found : List Row}
    (h : s.selected sel conds = .ok found) : ∀ r ∈ found, Native.wellFormedMembers r.fields := by
  intro r hr
  obtain ⟨hmem, hcovers⟩ := List.mem_filter.1 ((mem_meeting h r).1 hr).1
  exact hs.rows r hmem hcovers

/-- Whether there is a window of the rows does not depend on a sound order. -/
theorem windowOf_error_iff [Reader] (hs : s.Legible sel) (horder : order.Sound)
    {ops : List (Filter × Comparison)} {limit offset : Int} (e : Failure) :
    s.windowOf sel ops order limit offset = .error e ↔
      s.windowOf sel ops ⟨none, false⟩ limit offset = .error e := by
  refine Outcome.bind_error_congr (fun conds _ => ?_) e
  refine Outcome.bind_error_congr fun _ _ => ?_
  split
  · exact fun _ => Iff.rfl
  refine Outcome.bind_error_congr fun found hfound e => ?_
  -- what has been found can be put into both orders
  obtain ⟨rows, hrows⟩ := exists_ordered horder (selected_legible hs hfound)
  rw [Outcome.map_eq_error, Outcome.map_eq_error, hrows]
  exact ⟨nofun, nofun⟩

theorem during_error_iff {α β : Type} {activity : Activity} {x : Except Failure α}
    {y : Except Failure β} (h : ∀ f, x = .error f ↔ y = .error f) (e : Error) :
    during activity x = .error e ↔ during activity y = .error e := by
  cases x with
  | error f =>
    cases (h f).1 rfl
    exact ⟨fun h => congrArg _ (Except.error.inj h), fun h => congrArg _ (Except.error.inj h)⟩
  | ok a =>
    cases y with
    | error f => cases (h f).2 rfl
    | ok b => exact ⟨nofun, nofun⟩

/-- Whether a page can be fetched does not depend on a sound order. -/
theorem fetch_error_iff [Reader] (hs : s.Legible sel) (horder : order.Sound)
    {page limit : Option Int} (e : Error) :
    s.fetch sel order page limit = .error e ↔ s.fetch sel ⟨none, false⟩ page limit = .error e := by
  refine Outcome.bind_error_congr (fun ops _ => ?_) e
  refine Outcome.bind_error_congr fun p _ => ?_
  refine Outcome.bind_error_congr fun l _ => ?_
  refine Outcome.bind_error_iff (during_error_iff (windowOf_error_iff hs horder)) ?_
  intro shown shown' _ _
  exact Outcome.bind_error_congr fun total _ e => ⟨nofun, nofun⟩

/-! ### The pages in an order -/

/-- Are these the rows, in this order, that the pages of a selection are cut from?
Every page that can be asked for is a window of them and tells their number, and the
pages of one size one after another show them all, if there are no more of them than
places. -/
structure Lists [Reader] (s : Store) (sel : Selection) (order : Order)
    (rows : List Row) : Prop where
  page : ∀ p l : Int, 1 ≤ p → 1 ≤ l → l < 2 ^ 63 → (p - 1) * l < 2 ^ 63 →
    s.fetch sel order (some p) (some l) =
      .ok ((window l ((p - 1) * l) rows).map Row.toRecord, rows.length)
  pages : rows.length ≤ 2 ^ 63 → ∀ l : Int, 1 ≤ l → l < 2 ^ 63 → ∃ (n : Nat)
    (pages : List (List Record × Nat)),
    (List.range n).mapM (fun i : Nat => s.fetch sel order (some (i + 1)) (some l)) = .ok pages ∧
    pages.flatMap (·.1) = rows.map Row.toRecord

theorem Finds.lists [Reader] (h : s.Finds sel order rows) : s.Lists sel order rows where
  page _ _ hp hl hfits hoffset := fetch_of_finds h hp hl hfits hoffset
  pages := by
    intro hcount l hl hfits
    obtain ⟨n, hn, -⟩ := exists_pageCount rows.length (by omega : 0 < l)
    refine ⟨n, (List.range n).map fun i : Nat =>
      ((window l (i * l) rows).map Row.toRecord, rows.length), ?_, ?_⟩
    · refine Outcome.mapM_of_forall fun i hi => ?_
      have hplace := place_lt_length hn (List.mem_range.1 hi)
      have hpage := fetch_of_finds (p := (i : Int) + 1) h (by omega) hl hfits
        (by rw [Int.add_sub_cancel]; omega)
      rw [Int.add_sub_cancel] at hpage
      exact hpage
    · rw [List.flatMap_map, ← List.map_flatMap, flatMap_window_eq_self (by omega) hn]

/-- What is fetched on one page is found in every order that can be made. -/
theorem finds_of_fetch [Reader] (htable : s.hasTable .rows) {page limit : Option Int}
    {answer : List Record × Nat} (h : s.fetch sel order page limit = .ok answer) :
    ∃ conds found, s.selected sel conds = .ok found ∧
      ∀ order' rows, ordered order' found = .ok rows → rows.length = found.length →
        s.Finds sel order' rows := by
  obtain ⟨records, total⟩ := answer
  obtain ⟨_, _, _, _, -, -, -, -, hcount, -⟩ := fetch_eq_ok.1 h
  obtain ⟨ops, conds, found, hops, hconds, hfound, hlength⟩ := count_eq_ok.1 hcount
  refine ⟨conds, found, hfound, fun order' rows hrows hrowsLength => ?_⟩
  refine ⟨htable, ?_, ops, conds, found, hops, hconds, hfound, hrows⟩
  exact count_eq_ok.2 ⟨ops, conds, found, hops, hconds, hfound, hrowsLength.symm⟩

/-- A page of a selection can be fetched in the order of a plain column if it can be
without one, and if not, for the same reason.  The pages without an order show the rows
by their places; the pages downwards without a column show the same from its end; and
those by the column show the stable sort of it, upwards or downwards, by the fields in
the column.  Numbers among them are sorted by what the store reads them as. -/
theorem fetch_sorted [reader : Reader] (hs : s.Reachable)
    (hrows : ∀ r ∈ s.rows, sel.covers r → Native.wellFormedMembers r.fields)
    (hplain : Path.isPlain column) (hcolumn : column ≠ "") :
    reader.Approximates ∧
    (∀ order : Order, order.column = none ∨ order.column = some column →
      ∀ page limit e, s.fetch sel order page limit = .error e ↔
        s.fetch sel ⟨none, false⟩ page limit = .error e) ∧
    ∀ page limit answer, s.fetch sel ⟨none, false⟩ page limit = .ok answer →
      ∃ rows up down : List Row,
        s.Lists sel ⟨none, false⟩ rows ∧
        (rows.Pairwise fun a b => placeCompare a b = .lt) ∧
        s.Lists sel ⟨none, true⟩ rows.reverse ∧
        s.Lists sel ⟨some column, false⟩ up ∧ StableSort (Row.compareBy column) rows up ∧
        s.Lists sel ⟨some column, true⟩ down ∧
        StableSort (fun a b => Row.compareBy column b a) rows down := by
  have hlegible : s.Legible sel := ⟨hs.hasTable .rows, hrows⟩
  refine ⟨reader.approximates,
    fun order horder page limit e => fetch_error_iff hlegible ?_ e, ?_⟩
  · intro c hc
    have hmem := (Option.mem_filter_iff.1 hc).1
    rcases horder with horder | horder
    · rw [horder] at hmem
      cases hmem
    · rw [horder] at hmem
      cases hmem
      exact hplain
  · intro page limit answer h
    obtain ⟨conds, found, hfound, hfinds⟩ := finds_of_fetch (hs.hasTable .rows) h
    have hids := hs.integral.rowIds.sublist ((selected_sublist hfound).map (·.id))
    have hlength : (byPlace found).length = found.length := (perm_sortBy _ found).length_eq
    obtain ⟨⟨up, hup, hupSort⟩, down, hdown, hdownSort⟩ :=
      exists_stableSort hplain hcolumn (selected_legible hlegible hfound)
    refine ⟨byPlace found, up, down, ?_, pairwise_byPlace hids, ?_, ?_, hupSort, ?_, hdownSort⟩
    · exact (hfinds ⟨none, false⟩ _ rfl hlength).lists
    · exact (hfinds ⟨none, true⟩ _ rfl ((List.length_reverse ..).trans hlength)).lists
    · exact (hfinds _ _ hup (hupSort.perm.length_eq.trans hlength)).lists
    · exact (hfinds _ _ hdown (hdownSort.perm.length_eq.trans hlength)).lists

/-- A column with fields of several kinds, in a selection without filters. -/
theorem fetch_sorted_kinds :
    let u : Upload := ⟨[.text "a"], [[.text "x"], [.bool true], [.null]], false⟩
    let s := empty.run [.ingest (some 1) (some "t") none u]
    let sel : Selection := ⟨some 1, none, [], []⟩
    (∀ r ∈ s.rows, sel.covers r → Native.wellFormedMembers r.fields) ∧
      ∃ rows up down, s.Lists sel ⟨none, false⟩ rows ∧ rows.length = 3 ∧
        s.Lists sel ⟨some "a", false⟩ up ∧ StableSort (Row.compareBy "a") rows up ∧
        s.Lists sel ⟨some "a", true⟩ down ∧
        StableSort (fun a b => Row.compareBy "a" b a) rows down := by
  intro u s sel
  have hrows : ∀ r ∈ s.rows, sel.covers r → Native.wellFormedMembers r.fields :=
    fun r hr _ => (by decide +kernel : ∀ r ∈ s.rows, Native.wellFormedMembers r.fields) r hr
  obtain ⟨answer, hanswer, htotal⟩ :
      ∃ answer, s.fetch sel ⟨none, false⟩ (some 1) (some 10) = .ok answer ∧ answer.2 = 3 :=
    ⟨_, rfl, rfl⟩
  obtain ⟨rows, up, down, hlists, -, -, hup, hupSort, hdown, hdownSort⟩ :=
    (fetch_sorted ⟨_, rfl⟩ hrows (by decide) (by decide : "a" ≠ "")).2.2 _ _ _ hanswer
  have hpage := hlists.page 1 10 (by decide) (by decide) (by decide) (by decide)
  cases hanswer.symm.trans hpage
  exact ⟨hrows, rows, up, down, hlists, htotal, hup, hupSort, hdown, hdownSort⟩

/-- Two whole numbers beyond 64 bits with the same nearest double stay as they stand,
although the first is the larger one. -/
theorem large_wholes_tied :
    let large : List (List Cell) :=
      [[.number (.whole (2 ^ 64 + 1))], [.number (.whole (2 ^ 64))]]
    let s := empty.run [.ingest (some 1) (some "t") none ⟨[.text "a"], large, false⟩]
    s.Reachable ∧ (∀ r ∈ s.rows, Native.wellFormedMembers r.fields) ∧
      ((Number.whole (2 ^ 64)).compare (.whole (2 ^ 64 + 1)) = .lt) ∧
      ∃ answer, s.fetch ⟨some 1, none, [], []⟩ ⟨some "a", false⟩ (some 1) (some 10) = .ok answer ∧
        answer.1.map (fun r => (r.fields.cell "a").label) =
          ["18446744073709551617", "18446744073709551616"] := by
  intro large s
  refine ⟨⟨_, rfl⟩, by decide +kernel, by decide +kernel, ?_⟩
  exact Outcome.of_toOption_map (by decide +kernel)

end Store

/-! ### Orders that are asked for -/

/-- The order that is meant by a column and a word for the direction. -/
theorem Sorting.order_of_word {column direction : String} {descending : Bool}
    (h : word ⟨some column, some direction⟩ = if descending then "desc" else "asc") :
    Sorting.order (some ⟨some column, some direction⟩) =
      .ok ⟨if column ∈ placeKeys then none else some column, descending⟩ := by
  have hcolumn : (some column).filter (fun c => decide (c ∉ placeKeys)) =
      if column ∈ placeKeys then none else some column := by
    by_cases hkey : column ∈ placeKeys
    · rw [if_pos hkey, Option.filter_some, if_neg (by simpa using hkey)]
    · rw [if_neg hkey, Option.filter_some, if_pos (decide_eq_true hkey)]
  rw [Sorting.order, Sorting.check, h, hcolumn]
  cases descending <;> rfl

namespace Store

variable {s : Store} {d : Dataset} {owner : Ident} {r : RowRequest} {column : String}
  {descending : Bool}

/-- The selection that a request makes in a dataset: its filters on other columns than
those of the dataset are left out. -/
def inDataset (owner : Ident) (d : Dataset) (r : RowRequest) : Selection :=
  ⟨owner, some (d.id : Int), r.filters.filter (·.column ∈ d.columns), []⟩

/-- The page that a request asks for as `fetch` gives it in an order. -/
def fetchedPage [Reader] (s : Store) (owner : Ident) (d : Dataset) (r : RowRequest)
    (order : Order) :
    Except Error Page := do
  let (records, total) ←
    s.fetch (← checked (inDataset owner d r)) order (some r.page) (some r.limit)
  return ⟨records, total, r.page, r.limit⟩

/-- A row query with a page and an order that are right is a matter of `fetch`. -/
theorem page_of_order [Reader] {sel : Selection} {sort : Option Sorting} {order : Order} {p l : Int}
    (hp : 1 ≤ p) (hl : 1 ≤ l) (horder : Sorting.order sort = .ok order) :
    s.page sel sort (some p) (some l) = do
      let (records, total) ← s.fetch (← checked sel) order (some p) (some l)
      return ⟨records, total, p, l⟩ := by
  refine (if_neg (by omega : ¬ p < 1)).trans ?_
  refine (if_neg (by omega : ¬ l ≤ 0)).trans ?_
  rw [horder]
  rfl

/-- A request that is sorted by a column which the dataset has, or by the places, keeps
its order. -/
theorem datasetData_eq [Reader] (hd : s.ownedDataset owner (some (d.id : Int)) = .ok d)
    (hsort : r.sortBy = some column) (hcolumn : column ≠ "")
    (hknown : column ∈ d.columns ∨ column ∈ placeKeys) :
    s.datasetData owner (some (d.id : Int)) r =
      s.page (inDataset owner d r) (some ⟨some column, some r.sortOrder⟩) (some r.page)
        (some r.limit) := by
  have hrequested : requestedSort r = some ⟨some column, some r.sortOrder⟩ := by
    rw [requestedSort, hsort, given_of_ne_empty hcolumn]
    rfl
  have hkept : ((requestedSort r).filter fun o =>
      (o.column.map fun c => decide (c ∈ d.columns ∨ c ∈ placeKeys)).getD false) =
      some ⟨some column, some r.sortOrder⟩ := by
    rw [hrequested, Option.filter_some]
    exact if_pos (decide_eq_true hknown)
  rw [datasetData, hd]
  exact congrArg (fun sort => s.page (inDataset owner d r) sort (some r.page) (some r.limit)) hkept

/-- Of two rows of a dataset the one that comes first by the places has the smaller
number. -/
theorem index_lt_of_placeCompare (hs : s.Reachable) (hd : d ∈ s.datasets) {a b : Row}
    (ha : a ∈ s.rowsOf d.id) (hb : b ∈ s.rowsOf d.id) (h : placeCompare a b = .lt) :
    a.index < b.index := by
  obtain ⟨events, rfl⟩ := hs
  obtain ⟨u, -, hdescribes⟩ := described_run events d hd
  have hnodup : (((empty.run events).rowsOf d.id).map (·.index)).Nodup := by
    rw [hdescribes.map_index]
    exact List.nodup_range
  have hdataset : a.dataset = b.dataset :=
    (of_decide_eq_true (List.mem_filter.1 ha).2).trans
      (of_decide_eq_true (List.mem_filter.1 hb).2).symm
  rcases Ordering.then_eq_lt.1 h with h | ⟨-, h⟩
  · exact absurd hdataset (Nat.ne_of_lt (Nat.compare_eq_lt.1 h))
  rcases Ordering.then_eq_lt.1 h with h | ⟨h, hid⟩
  · exact Nat.compare_eq_lt.1 h
  · -- rows with one number are one row
    cases List.inj_on_of_nodup_map hnodup ha hb (Nat.compare_eq_eq.1 h)
    exact absurd (Nat.compare_eq_lt.1 hid) (Nat.lt_irrefl _)

/-- Rows of a dataset that are found without a column are in the order of their numbers,
upwards or downwards. -/
theorem Finds.index_order [Reader] (hs : s.Reachable) (hd : d ∈ s.datasets) {valid : Selection}
    (hdataset : valid.dataset = some (d.id : Int)) {rows : List Row}
    (h : s.Finds valid ⟨none, descending⟩ rows) :
    rows.Pairwise fun a b => if descending then b.index < a.index else a.index < b.index := by
  obtain ⟨hmem, -, hpairwise⟩ := h.spec hs.integral.rowIds
  have hrowsOf : ∀ r ∈ rows, r ∈ s.rowsOf d.id := by
    intro r hr
    obtain ⟨hr, hmatches⟩ := (hmem r).1 hr
    have hcovers := (Bool.and_eq_true _ _ ▸ hmatches.covers).2
    rw [hdataset] at hcovers
    exact List.mem_filter.2 ⟨hr, decide_eq_true (Int.ofNat.inj (beq_iff_eq.1 hcovers)).symm⟩
  refine hpairwise.imp_of_mem fun {a b} ha hb hab => ?_
  cases descending with
  | false => exact index_lt_of_placeCompare hs hd (hrowsOf a ha) (hrowsOf b hb) hab
  | true => exact index_lt_of_placeCompare hs hd (hrowsOf b hb) (hrowsOf a ha) hab

/-- A dataset can be sorted by each of its columns, up or down, but for those whose
names stand for the places: every page is what `fetch` gives in the order of the
column's field.  By a name that stands for the places, whether the dataset has such a
column or not, every page is what `fetch` gives without a column, and its rows are in
the order of their numbers. -/
theorem datasetData_sorted [Reader] (hs : s.Reachable) (hd : d ∈ s.datasets)
    (hown : owner.names d.owner) (howner : fitsWord d.owner) (hid : fitsWord d.id)
    (hpage : 1 ≤ r.page) (hlimit : 1 ≤ r.limit) (hsort : r.sortBy = some column)
    (hcolumn : column ≠ "")
    (hword : Sorting.word ⟨some column, some r.sortOrder⟩ =
      if descending then "desc" else "asc") :
    (column ∈ d.columns → column ∉ placeKeys →
      s.datasetData owner (some (d.id : Int)) r =
        s.fetchedPage owner d r ⟨some column, descending⟩) ∧
    (column ∈ placeKeys →
      s.datasetData owner (some (d.id : Int)) r = s.fetchedPage owner d r ⟨none, descending⟩ ∧
      ∀ q, s.datasetData owner (some (d.id : Int)) r = .ok q → ∃ valid rows,
        checked (inDataset owner d r) = .ok valid ∧ s.Lists valid ⟨none, descending⟩ rows ∧
        rows.Pairwise fun a b => if descending then b.index < a.index else a.index < b.index) := by
  have howned : s.ownedDataset owner (some (d.id : Int)) = .ok d := by
    refine ownedDataset_of_mem hs.integral (hs.hasTable .datasets) (fun n hn => ?_) hd hid hown
    cases (names_iff.1 hown).symm.trans hn
    exact howner
  have horder := Sorting.order_of_word hword
  constructor
  · intro hmem hkey
    rw [if_neg hkey] at horder
    rw [datasetData_eq howned hsort hcolumn (.inl hmem)]
    exact page_of_order hpage hlimit horder
  · intro hkey
    rw [if_pos hkey] at horder
    rw [datasetData_eq howned hsort hcolumn (.inr hkey)]
    refine ⟨page_of_order hpage hlimit horder, fun q hq => ?_⟩
    obtain ⟨valid, order, rows, hvalid, horder', hfinds, -⟩ := finds_of_page hq hs.integral.rowIds
    cases horder.symm.trans horder'
    have hdataset : valid.dataset = some (d.id : Int) := by
      obtain ⟨filters, -, h⟩ := Outcome.bind_eq_ok.1 hvalid
      cases h
      rfl
    exact ⟨valid, rows, hvalid, hfinds.lists, hfinds.index_order hs hd hdataset⟩

/-- A dataset with two columns, sorted by the second one and by the places. -/
theorem datasetData_sorted_two :
    let u : Upload := ⟨["a", "b"].map .text, [[.text "x", .bool true], [.text "y", .null]], false⟩
    let s := empty.run [.ingest (some 1) (some "t") none u]
    let request (column : String) : RowRequest := ⟨1, 10, some column, "DESC", []⟩
    ∃ d ∈ s.datasets,
      s.datasetData (some 1) (some (d.id : Int)) (request "b") =
        s.fetchedPage (some 1) d (request "b") ⟨some "b", true⟩ ∧
      s.datasetData (some 1) (some (d.id : Int)) (request "row_index") =
        s.fetchedPage (some 1) d (request "row_index") ⟨none, true⟩ := by
  intro u s request
  obtain ⟨d, hd, hid, howner, hcolumns⟩ : ∃ d ∈ s.datasets, d.id = 1 ∧ d.owner = 1 ∧
      d.columns = ["a", "b"] := ⟨_, List.mem_cons_self, rfl, rfl, by decide +kernel⟩
  have hs : s.Reachable := ⟨_, rfl⟩
  have hown : Ident.names (some 1) d.owner := names_iff.2 (congrArg some howner.symm)
  have hownerWord : fitsWord d.owner := by
    rw [howner]
    decide
  have hword : fitsWord d.id := by
    rw [hid]
    decide
  have hb : (request "b").sortBy = some "b" := rfl
  have hplaces : (request "row_index").sortBy = some "row_index" := rfl
  have hone : (1 : Int) ≤ 1 := by decide
  have hten : (1 : Int) ≤ 10 := by decide
  refine ⟨d, hd, ?_, ?_⟩
  · refine (datasetData_sorted hs hd hown hownerWord hword hone hten hb (by decide)
      (by decide)).1 ?_ (by decide)
    rw [hcolumns]
    decide
  · exact ((datasetData_sorted hs hd hown hownerWord hword hone hten hplaces (by decide)
      (by decide)).2 (by decide)).1

/-- A column that is named like the places does not sort its dataset. -/
theorem place_column_unsorted :
    let u : Upload := ⟨[.text "row_index"], [[.text "b"], [.text "a"]], false⟩
    let s := empty.run [.ingest (some 1) (some "t") none u]
    s.Reachable ∧ (s.datasets.map (·.columns) = [["row_index"]]) ∧
      (∃ q, s.datasetData (some 1) (some 1) ⟨1, 10, some "row_index", "asc", []⟩ = .ok q ∧
        q.records.map (fun r => (r.fields.cell "row_index").label) = ["b", "a"]) ∧
      ∃ answer, s.fetch ⟨some 1, some 1, [], []⟩ ⟨some "row_index", false⟩ (some 1) (some 10) =
          .ok answer ∧
        answer.1.map (fun r => (r.fields.cell "row_index").label) = ["a", "b"] := by
  intro u s
  refine ⟨⟨_, rfl⟩, by decide +kernel, ?_, ?_⟩
  · exact Outcome.of_toOption_map (by decide +kernel)
  · exact Outcome.of_toOption_map (by decide +kernel)

end Store

end Gridbook
