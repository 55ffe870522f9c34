/-
Gridbook/Proofs/Query/Paging.lean

Pages cut one list of rows.  What a selection finds, and in what order, is
settled before the page is looked at (`Finds`): every page is a window of the
same list, and its numbers are those of that list.

Main statement: the pages from the first to the last one, put together, are the
matching rows in their order, each once, whatever the size of a page
(`pages_partition`).
-/
import Mathlib.Algebra.Ring.Int.Defs
import Gridbook.Proofs.Store.Integrity
import Gridbook.Proofs.Store.Order
import Gridbook.Proofs.Store.Selecting
import Gridbook.Query.Rows

namespace Gridbook

/-! ### Windows of a list -/

theorem window_of_pos {α : Type} {limit : Int} (h : 0 < limit) (offset : Int) (xs : List α) :
    window limit offset xs = (xs.drop offset.toNat).take limit.toNat := by
  rw [window, if_neg (Int.not_lt.2 (Int.le_of_lt h))]

theorem window_ne_nil {α : Type} {limit offset : Int} (hlimit : 0 < limit) (hoffset : 0 ≤ offset)
    (xs : List α) : window limit offset xs ≠ [] ↔ offset < xs.length := by
  rw [window_of_pos hlimit, ← List.length_pos_iff, List.length_take, List.length_drop]
  omega

/-- Windows side by side are the beginning of the list. -/
theorem flatMap_window {α : Type} {limit : Int} (h : 0 < limit) (xs : List α) (n : Nat) :
    (List.range n).flatMap (fun i : Nat => window limit (i * limit) xs) =
      xs.take (n * limit.toNat) := by
  induction n with
  | zero => rw [Nat.zero_mul, List.take_zero, List.range_zero, List.flatMap_nil]
  | succ n ih =>
    have hoffset : ((n : Int) * limit).toNat = n * limit.toNat := by
      rw [Int.toNat_mul (Int.natCast_nonneg n) (Int.le_of_lt h), Int.toNat_natCast]
    rw [List.range_succ, List.flatMap_append, ih, List.flatMap_singleton, window_of_pos h, hoffset,
      ← List.take_add, Nat.succ_mul]

/-! ### The number of pages -/

/-- A page number is at most the number of pages exactly when there are rows
left after the pages before it. -/
theorem Page.le_totalPages_iff {q : Page} (h : 0 < q.limit) (p : Int) :
    p ≤ q.totalPages ↔ (p - 1) * q.limit < q.total := by
  -- the number of pages is the quotient of the negated total, negated: rounded up
  have hdiv := Int.ediv_mul_le (-q.total) (Int.ne_of_gt h)
  have hlt := Int.lt_ediv_add_one_mul_self (-q.total) h
  rw [totalPages, if_neg (Int.ne_of_gt h), Int.fdiv_eq_ediv_of_nonneg _ (Int.le_of_lt h)]
  generalize -q.total / q.limit = c at hdiv hlt
  constructor
  · intro hp
    have hle : (p - 1) * q.limit ≤ (-c - 1) * q.limit :=
      Int.mul_le_mul_of_nonneg_right (by omega) (Int.le_of_lt h)
    rw [Int.sub_mul (-c), Int.neg_mul, Int.one_mul] at hle
    rw [Int.add_mul, Int.one_mul] at hlt
    omega
  · intro hp
    by_contra hc
    have hle : -c * q.limit ≤ (p - 1) * q.limit :=
      Int.mul_le_mul_of_nonneg_right (by omega) (Int.le_of_lt h)
    rw [Int.neg_mul] at hle
    omega

/-- All pages of one size that know the same number of rows know the same number
of pages. -/
theorem exists_pageCount (total : Nat) {limit : Int} (h : 0 < limit) :
    ∃ n : Nat, (∀ p : Int, p ≤ n ↔ (p - 1) * limit < total) ∧
      ∀ q : Page, q.limit = limit → q.total = total → q.totalPages = n := by
  let counted : Page := ⟨[], total, 1, limit⟩
  have hle : ∀ p : Int, p ≤ counted.totalPages ↔ (p - 1) * limit < total :=
    Page.le_totalPages_iff h
  have hnonneg : 0 ≤ counted.totalPages := by
    rw [hle 0]
    omega
  obtain ⟨n, hn⟩ := Int.eq_ofNat_of_zero_le hnonneg
  rw [hn] at hle
  refine ⟨n, hle, fun q hlimit htotal => ?_⟩
  rw [← hn, Page.totalPages, Page.totalPages, hlimit, htotal]

/-- Windows side by side, up to the last one that is not empty, are the list. -/
theorem flatMap_window_eq_self {α : Type} {xs : List α} {limit : Int} (h : 0 < limit) {n : Nat}
    (hn : ∀ p : Int, p ≤ n ↔ (p - 1) * limit < xs.length) :
    (List.range n).flatMap (fun i : Nat => window limit (i * limit) xs) = xs := by
  -- no member is left behind the last window
  have hall : (xs.length : Int) ≤ n * limit := by
    have hlast := (hn (n + 1)).not.1 (by omega)
    rw [Int.add_sub_cancel] at hlast
    omega
  rw [flatMap_window h]
  refine List.take_of_length_le ?_
  rw [← Int.toNat_of_nonneg (a := limit) (by omega)] at hall
  exact_mod_cast hall

/-- Every window that is not empty starts at the place of a member. -/
theorem place_lt_length {total n : Nat} {limit : Int}
    (hn : ∀ p : Int, p ≤ n ↔ (p - 1) * limit < total) {i : Nat} (hi : i < n) :
    i * limit < total := by
  have hstart := (hn (i + 1)).1 (by omega)
  rw [Int.add_sub_cancel] at hstart
  exact hstart

/-! ### What a page shows -/

namespace Store

variable {s : Store} {sel valid : Selection} {sort : Option Sorting} {order : Order}
  {rows : List Row}

theorem statement_eq_ok {tables : List Table} {bound : List Int} :
    s.statement tables bound = .ok () ↔
      (∀ t ∈ tables, s.hasTable t) ∧ ∀ n ∈ bound, fitsWord n := by
  rw [← List.all_eq_true, ← List.all_eq_true]
  unfold statement
  cases tables.all s.hasTable with
  | false => simp
  | true =>
    cases bound.all fitsWord with
    | false => simp
    | true => simp

theorem needed_eq_ok {n : Option Int} {i : Int} : Error.needed n = .ok i ↔ n = some i := by
  cases n with
  | none => simp [Error.needed]
  | some j => simp [Error.needed]

/-- A window of rows is cut from the selected rows in their order. -/
theorem windowOf_eq_ok [Reader] {ops : List (Filter × Comparison)} {l offset : Int} {out : List Row}
    (hl : 1 ≤ l) :
    s.windowOf sel ops order l offset = .ok out ↔
      s.statement [.rows] [l, offset] = .ok () ∧
      ∃ conds found rows, s.conditions sel ops = .ok conds ∧ s.selected sel conds = .ok found ∧
        ordered order found = .ok rows ∧ window l offset rows = out := by
  constructor
  · intro h
    obtain ⟨conds, hconds, h⟩ := Outcome.bind_eq_ok.1 h
    obtain ⟨_, hstatement, h⟩ := Outcome.bind_eq_ok.1 h
    rw [if_neg (by omega)] at h
    obtain ⟨found, hfound, h⟩ := Outcome.bind_eq_ok.1 h
    obtain ⟨rows, hrows, h⟩ := Outcome.map_eq_ok.1 h
    exact ⟨hstatement, conds, found, rows, hconds, hfound, hrows, h⟩
  · rintro ⟨hstatement, conds, found, rows, hconds, hfound, hrows, h⟩
    refine Outcome.bind_eq_ok.2 ⟨conds, hconds, Outcome.bind_eq_ok.2 ⟨(), hstatement, ?_⟩⟩
    rw [if_neg (by omega)]
    exact Outcome.bind_eq_ok.2 ⟨found, hfound, Outcome.map_eq_ok.2 ⟨rows, hrows, h⟩⟩

/-- A count is the number of the selected rows. -/
theorem count_eq_ok [Reader] {n : Nat} :
    s.count sel = .ok n ↔
      ∃ ops conds found, sel.comparisons = .ok ops ∧ s.conditions sel ops = .ok conds ∧
        s.selected sel conds = .ok found ∧ found.length = n := by
  constructor
  · intro h
    obtain ⟨ops, hops, h⟩ := Outcome.bind_eq_ok.1 h
    obtain ⟨conds, hconds, h⟩ := Outcome.bind_eq_ok.1 (during_eq_ok.1 h)
    obtain ⟨found, hfound, h⟩ := Outcome.bind_eq_ok.1 h
    exact ⟨ops, conds, found, hops, hconds, hfound, Except.ok.inj h⟩
  · rintro ⟨ops, conds, found, hops, hconds, hfound, rfl⟩
    refine Outcome.bind_eq_ok.2 ⟨ops, hops, during_eq_ok.2 ?_⟩
    exact Outcome.bind_eq_ok.2 ⟨conds, hconds, Outcome.bind_eq_ok.2 ⟨found, hfound, rfl⟩⟩

theorem rowCount_eq_ok [Reader] {n : Nat} :
    s.rowCount sel = .ok n ↔ ∃ valid, checked sel = .ok valid ∧ s.count valid = .ok n :=
  Outcome.bind_eq_ok

/-- A page is a window and a count, each asked for on its own. -/
theorem fetch_eq_ok [Reader] {page limit : Option Int} {records : List Record} {total : Nat} :
    s.fetch sel order page limit = .ok (records, total) ↔
      ∃ ops p l shown, sel.comparisons = .ok ops ∧ page = some p ∧ limit = some l ∧
        s.windowOf sel ops order l ((p - 1) * l) = .ok shown ∧ s.count sel = .ok total ∧
        shown.map Row.toRecord = records := by
  constructor
  · intro h
    obtain ⟨ops, hops, h⟩ := Outcome.bind_eq_ok.1 h
    obtain ⟨p, hp, h⟩ := Outcome.bind_eq_ok.1 h
    obtain ⟨l, hl, h⟩ := Outcome.bind_eq_ok.1 h
    obtain ⟨shown, hshown, h⟩ := Outcome.bind_eq_ok.1 h
    obtain ⟨_, hcount, h⟩ := Outcome.bind_eq_ok.1 h
    cases h
    exact ⟨ops, p, l, shown, hops, needed_eq_ok.1 hp, needed_eq_ok.1 hl, during_eq_ok.1 hshown,
      hcount, rfl⟩
  · rintro ⟨ops, p, l, shown, hops, rfl, rfl, hshown, hcount, rfl⟩
    refine Outcome.bind_eq_ok.2 ⟨ops, hops, Outcome.bind_eq_ok.2 ⟨p, rfl, ?_⟩⟩
    refine Outcome.bind_eq_ok.2 ⟨l, rfl, Outcome.bind_eq_ok.2 ⟨shown, ?_, ?_⟩⟩
    · exact during_eq_ok.2 hshown
    · exact Outcome.bind_eq_ok.2 ⟨total, hcount, rfl⟩

/-- A page is answered when its number and its size are positive, its order and
its filters are right, and the rows can be fetched. -/
theorem page_eq_ok [Reader] {page limit : Option Int} {q : Page} :
    s.page sel sort page limit = .ok q ↔
      ∃ p l order valid records total, page = some p ∧ 1 ≤ p ∧ limit = some l ∧ 1 ≤ l ∧
        Sorting.order sort = .ok order ∧ checked sel = .ok valid ∧
        s.fetch valid order page limit = .ok (records, total) ∧ q = ⟨records, total, p, l⟩ := by
  constructor
  · intro h
    obtain ⟨p, hp, h⟩ := Outcome.bind_eq_ok.1 h
    dsimp only at h
    split at h
    · cases h
    next hfirst =>
    obtain ⟨l, hl, h⟩ := Outcome.bind_eq_ok.1 h
    split at h
    · cases h
    next hpos =>
    obtain ⟨order, horder, h⟩ := Outcome.bind_eq_ok.1 h
    obtain ⟨valid, hvalid, h⟩ := Outcome.bind_eq_ok.1 h
    obtain ⟨⟨records, total⟩, hfetch, h⟩ := Outcome.bind_eq_ok.1 h
    cases h
    exact ⟨p, l, order, valid, records, total, needed_eq_ok.1 hp, by omega, needed_eq_ok.1 hl,
      by omega, horder, hvalid, hfetch, rfl⟩
  · rintro ⟨p, l, order, valid, records, total, rfl, hp, rfl, hl, horder, hvalid, hfetch, rfl⟩
    refine Outcome.bind_eq_ok.2 ⟨p, rfl, ?_⟩
    dsimp only
    rw [if_neg (by omega)]
    refine Outcome.bind_eq_ok.2 ⟨l, rfl, ?_⟩
    rw [if_neg (by omega)]
    refine Outcome.bind_eq_ok.2 ⟨order, horder, Outcome.bind_eq_ok.2 ⟨valid, hvalid, ?_⟩⟩
    exact Outcome.bind_eq_ok.2 ⟨(records, total), hfetch, rfl⟩

/-- A checked selection finds these rows, in this order, on whatever page one
looks. -/
structure Finds [Reader] (s : Store) (valid : Selection) (order : Order)
    (rows : List Row) : Prop where
  table : s.hasTable .rows
  count : s.count valid = .ok rows.length
  found : ∃ ops conds found, valid.comparisons = .ok ops ∧ s.conditions valid ops = .ok conds ∧
    s.selected valid conds = .ok found ∧ ordered order found = .ok rows

/-- The rows that are found are the matching ones in their order. -/
theorem Finds.spec [Reader] (h : s.Finds valid order rows) (hids : (s.rows.map (·.id)).Nodup) :
    (∀ r, r ∈ rows ↔ r ∈ s.rows ∧ valid.Matches r) ∧ (rows.map (·.id)).Nodup ∧
      rows.Pairwise fun a b => order.compare a b = .lt := by
  obtain ⟨ops, conds, found, hops, hconds, hfound, hrows⟩ := h.found
  have hfoundIds : (found.map (·.id)).Nodup := hids.sublist ((selected_sublist hfound).map _)
  obtain ⟨hperm, horder⟩ := ordered_eq_ok hfoundIds hrows
  refine ⟨fun r => ?_, (hperm.map _).nodup_iff.2 hfoundIds, horder⟩
  rw [hperm.mem_iff, mem_selected hops hconds hfound]

/-- A page that is answered shows a part of what there is to be found. -/
theorem finds_of_page [Reader] {page limit : Option Int} {q : Page}
    (h : s.page sel sort page limit = .ok q) (hids : (s.rows.map (·.id)).Nodup) :
    ∃ valid order rows, checked sel = .ok valid ∧ Sorting.order sort = .ok order ∧
      s.Finds valid order rows ∧
      ∃ size offset, q.records = (window size offset rows).map Row.toRecord := by
  obtain ⟨p, l, order, valid, records, total, -, -, hlimit, hl, horder, hvalid, hfetch, rfl⟩ :=
    page_eq_ok.1 h
  obtain ⟨ops, p', l', shown, hops, -, hlimit', hwindow, -, rfl⟩ := fetch_eq_ok.1 hfetch
  cases hlimit.symm.trans hlimit'
  obtain ⟨hstatement, conds, found, rows, hconds, hfound, hrows, rfl⟩ :=
    (windowOf_eq_ok hl).1 hwindow
  refine ⟨valid, order, rows, hvalid, horder, ?_, l, _, rfl⟩
  refine ⟨?_, ?_, ops, conds, found, hops, hconds, hfound, hrows⟩
  · exact (statement_eq_ok.1 hstatement).1 .rows List.mem_cons_self
  · -- the count puts the same conditions to the same table, without an order
    have hlength : rows.length = found.length :=
      (ordered_eq_ok (hids.sublist ((selected_sublist hfound).map _)) hrows).1.length_eq
    exact count_eq_ok.2 ⟨ops, conds, found, hops, hconds, hfound, hlength.symm⟩

/-- Where rows are found, every window of them whose place fits a word can be fetched. -/
theorem fetch_of_finds [Reader] (h : s.Finds valid order rows) {p l : Int} (hp : 1 ≤ p) (hl : 1 ≤ l)
    (hfits : l < 2 ^ 63) (hoffset : (p - 1) * l < 2 ^ 63) :
    s.fetch valid order (some p) (some l) =
      .ok ((window l ((p - 1) * l) rows).map Row.toRecord, rows.length) := by
  obtain ⟨ops, conds, found, hops, hconds, hfound, hrows⟩ := h.found
  have hnonneg : 0 ≤ (p - 1) * l := Int.mul_nonneg (by omega) (by omega)
  have hstatement : s.statement [.rows] [l, (p - 1) * l] = .ok () := by
    refine statement_eq_ok.2 ⟨?_, ?_⟩
    · rw [List.forall_mem_singleton]
      exact h.table
    · rw [List.forall_mem_cons, List.forall_mem_singleton, fitsWord_iff, fitsWord_iff]
      omega
  have hwindow : s.windowOf valid ops order l ((p - 1) * l) =
      .ok (window l ((p - 1) * l) rows) :=
    (windowOf_eq_ok hl).2 ⟨hstatement, conds, found, rows, hconds, hfound, hrows, rfl⟩
  exact fetch_eq_ok.2 ⟨ops, p, l, _, hops, rfl, rfl, hwindow, h.count, rfl⟩

/-- Where rows are found, every page whose places fit a word is answered. -/
theorem page_of_finds [Reader] (hvalid : checked sel = .ok valid)
    (horder : Sorting.order sort = .ok order)
    (h : s.Finds valid order rows) {p l : Int} (hp : 1 ≤ p) (hl : 1 ≤ l) (hfits : l < 2 ^ 63)
    (hoffset : (p - 1) * l < 2 ^ 63) :
    s.page sel sort (some p) (some l) =
      .ok ⟨(window l ((p - 1) * l) rows).map Row.toRecord, rows.length, p, l⟩ :=
  page_eq_ok.2 ⟨p, l, order, valid, _, _, rfl, hp, rfl, hl, horder, hvalid,
    fetch_of_finds h hp hl hfits hoffset, rfl⟩

/-- A page shows rows as long as there are pages, has a next one that shows rows
as long as it says so, and is full if it is not the last. -/
theorem page_of_pageCount [Reader] (hvalid : checked sel = .ok valid)
    (horder : Sorting.order sort = .ok order) (h : s.Finds valid order rows) {l : Int}
    (hl : 1 ≤ l) {n : Nat} (hn : ∀ p : Int, p ≤ n ↔ (p - 1) * l < rows.length) {p : Int}
    (hp : 1 ≤ p) (hfits : p * l < 2 ^ 63) :
    ∃ shown next, s.page sel sort (some p) (some l) = .ok shown ∧
      s.page sel sort (some (p + 1)) (some l) = .ok next ∧
      shown.total = rows.length ∧ shown.limit = l ∧
      (shown.records ≠ [] ↔ p ≤ n) ∧ (shown.hasNext ↔ next.records ≠ []) ∧
      (p < n → (shown.records.length : Int) = l) := by
  have hprod : (p - 1) * l = p * l - l := by rw [Int.sub_mul, Int.one_mul]
  have hoffset : 0 ≤ (p - 1) * l := Int.mul_nonneg (by omega) (by omega)
  have hshown := page_of_finds hvalid horder h hp hl (by omega) (by omega)
  have hnext := page_of_finds (p := p + 1) hvalid horder h (by omega) hl (by omega)
    (by rw [Int.add_sub_cancel]; exact hfits)
  rw [Int.add_sub_cancel] at hnext
  refine ⟨_, _, hshown, hnext, rfl, rfl, ?_, ?_, fun hlast => ?_⟩
  · rw [Ne, List.map_eq_nil_iff, hn]
    exact window_ne_nil (by omega) hoffset rows
  · rw [Ne, List.map_eq_nil_iff]
    show decide (p * l < rows.length) = true ↔ _
    rw [decide_eq_true_iff]
    exact (window_ne_nil (by omega) (by omega) rows).symm
  · have hfull : p * l < rows.length := by
      have hnext := (hn (p + 1)).1 (by omega)
      rw [Int.add_sub_cancel] at hnext
      exact hnext
    show (((window l ((p - 1) * l) rows).map Row.toRecord).length : Int) = l
    rw [List.length_map, window_of_pos (by omega), List.length_take, List.length_drop]
    omega

/-- The pages one after another show all rows, if the places where they start fit a
word. -/
theorem pages_of_places [Reader] (hvalid : checked sel = .ok valid)
    (horder : Sorting.order sort = .ok order) (h : s.Finds valid order rows) {l : Int}
    (hl : 1 ≤ l) {n : Nat} (hn : ∀ p : Int, p ≤ n ↔ (p - 1) * l < rows.length)
    (hfits : ∀ i : Nat, i < n → l < 2 ^ 63 ∧ i * l < 2 ^ 63) :
    ∃ pages : List Page,
      (List.range n).mapM (fun i : Nat => s.page sel sort (some (i + 1)) (some l)) = .ok pages ∧
      pages.flatMap (·.records) = rows.map Row.toRecord := by
  let shown (i : Nat) : Page :=
    ⟨(window l (i * l) rows).map Row.toRecord, rows.length, i + 1, l⟩
  refine ⟨(List.range n).map shown, Outcome.mapM_of_forall fun i hi => ?_, ?_⟩
  · obtain ⟨hsize, hplace⟩ := hfits i (List.mem_range.1 hi)
    have hpage := page_of_finds (p := (i : Int) + 1) hvalid horder h (by omega) hl hsize
      (by rw [Int.add_sub_cancel]; exact hplace)
    rw [Int.add_sub_cancel] at hpage
    exact hpage
  · rw [List.flatMap_map, ← List.map_flatMap, flatMap_window_eq_self (by omega) hn]

/-- The same, if the place behind the last page fits a word. -/
theorem pages_flatMap [Reader] (hvalid : checked sel = .ok valid)
    (horder : Sorting.order sort = .ok order) (h : s.Finds valid order rows) {l : Int}
    (hl : 1 ≤ l) {n : Nat} (hn : ∀ p : Int, p ≤ n ↔ (p - 1) * l < rows.length)
    (hfits : n * l < 2 ^ 63) :
    ∃ pages : List Page,
      (List.range n).mapM (fun i : Nat => s.page sel sort (some (i + 1)) (some l)) = .ok pages ∧
      pages.flatMap (·.records) = rows.map Row.toRecord := by
  refine pages_of_places hvalid horder h hl hn fun i hi => ?_
  have hle : ((i : Int) + 1) * l ≤ n * l := Int.mul_le_mul_of_nonneg_right (by omega) (by omega)
  have hpos : 0 ≤ (i : Int) * l := Int.mul_nonneg (Int.natCast_nonneg i) (by omega)
  rw [Int.add_mul, Int.one_mul] at hle
  omega

/-- Where rows are found, their pages show all of them if there are no more rows than
places, and every page that can be asked for is answered. -/
theorem exists_pages [Reader] (hvalid : checked sel = .ok valid)
    (horder : Sorting.order sort = .ok order)
    (h : s.Finds valid order rows) {l : Int} (hl : 1 ≤ l) (hfits : l < 2 ^ 63)
    (hcount : (rows.length : Int) ≤ 2 ^ 63) :
    ∃ (n : Nat) (pages : List Page),
      (List.range n).mapM (fun i : Nat => s.page sel sort (some (i + 1)) (some l)) = .ok pages ∧
      pages.flatMap (·.records) = rows.map Row.toRecord ∧
      ∀ p : Int, 1 ≤ p → (p - 1) * l < 2 ^ 63 → ∃ q, s.page sel sort (some p) (some l) = .ok q ∧
        q.total = rows.length ∧ q.totalPages = n ∧ (q.records ≠ [] ↔ p ≤ n) := by
  obtain ⟨n, hn, hpages⟩ := exists_pageCount rows.length (by omega : 0 < l)
  have hplaces : ∀ i : Nat, i < n → l < 2 ^ 63 ∧ i * l < 2 ^ 63 :=
    fun i hi => ⟨hfits, Int.lt_of_lt_of_le (place_lt_length hn hi) hcount⟩
  obtain ⟨pages, hshown, hconcat⟩ := pages_of_places hvalid horder h hl hn hplaces
  refine ⟨n, pages, hshown, hconcat, fun p hp hplace => ?_⟩
  have hoffset : 0 ≤ (p - 1) * l := Int.mul_nonneg (by omega) (by omega)
  refine ⟨_, page_of_finds hvalid horder h hp hl hfits hplace, rfl, hpages _ rfl rfl, ?_⟩
  rw [Ne, List.map_eq_nil_iff, hn]
  exact window_ne_nil (by omega) hoffset rows

/-- The rows that a selection asks for, in one order, are what its pages show one
after another, whatever their size.  A store that answers one page answers all
whose places fit a word; each tells the number of all rows, which is the number
that is counted, and from it how many pages there are.  Only the last page may
be short, and behind it all are empty. -/
theorem pages_partition [Reader] (hs : s.Reachable) {page limit : Option Int} {q : Page}
    (hanswers : s.page sel sort page limit = .ok q) :
    ∃ (valid : Selection) (order : Order) (rows : List Row),
      checked sel = .ok valid ∧ Sorting.order sort = .ok order ∧
      (∀ r, r ∈ rows ↔ r ∈ s.rows ∧ valid.Matches r) ∧ (rows.map (·.id)).Nodup ∧
      (rows.Pairwise fun a b => order.compare a b = .lt) ∧
      s.rowCount sel = .ok rows.length ∧
      ∀ limit : Int, 1 ≤ limit → ∃ n : Nat,
        (n * limit < 2 ^ 63 → ∃ pages : List Page,
          (List.range n).mapM (fun i : Nat => s.page sel sort (some (i + 1)) (some limit)) =
            .ok pages ∧
          pages.flatMap (·.records) = rows.map Row.toRecord) ∧
        ∀ p : Int, 1 ≤ p → p * limit < 2 ^ 63 → ∃ shown next,
          s.page sel sort (some p) (some limit) = .ok shown ∧
          s.page sel sort (some (p + 1)) (some limit) = .ok next ∧
          shown.total = rows.length ∧ shown.totalPages = n ∧
          (shown.records ≠ [] ↔ p ≤ n) ∧ (shown.hasNext ↔ next.records ≠ []) ∧
          (p < n → (shown.records.length : Int) = limit) := by
  have hids := hs.integral.rowIds
  obtain ⟨valid, order, rows, hvalid, horder, hfinds, -⟩ := finds_of_page hanswers hids
  obtain ⟨hmatches, hnodup, hpairwise⟩ := hfinds.spec hids
  have hcount : s.rowCount sel = .ok rows.length :=
    Outcome.bind_eq_ok.2 ⟨valid, hvalid, hfinds.count⟩
  refine ⟨valid, order, rows, hvalid, horder, hmatches, hnodup, hpairwise, hcount, fun l hl => ?_⟩
  obtain ⟨n, hn, hpages⟩ := exists_pageCount rows.length (by omega : 0 < l)
  refine ⟨n, pages_flatMap hvalid horder hfinds hl hn, fun p hp hfits => ?_⟩
  obtain ⟨shown, next, hshown, hnext, htotal, hlimit, hrows, hmore, hfull⟩ :=
    page_of_pageCount hvalid horder hfinds hl hn hp hfits
  exact ⟨shown, next, hshown, hnext, htotal, hpages shown hlimit htotal, hrows, hmore, hfull⟩

/-- Three rows on pages of two, from the last to the first. -/
theorem pages_partition_three :
    let u : Upload := ⟨[.text "a"], [[.bool true], [.null], [.bool false]], false⟩
    let s := empty.run [.ingest (some 1) (some "t") none u]
    let sel : Selection := ⟨some 1, none, [], []⟩
    let sort : Option Sorting := some ⟨none, some "desc"⟩
    s.Reachable ∧ (∃ q, s.page sel sort (some 1) (some 2) = .ok q ∧ q.totalPages = 2) ∧
      ∃ rows : List Row, rows.length = 3 ∧ (∀ r, r ∈ rows → r ∈ s.rows) ∧ ∃ pages : List Page,
        (List.range 2).mapM (fun i : Nat => s.page sel sort (some (i + 1)) (some 2)) = .ok pages ∧
        pages.flatMap (·.records) = rows.map Row.toRecord := by
  intro u s sel sort
  have hs : s.Reachable := ⟨_, rfl⟩
  have hcount : s.rowCount sel = .ok 3 := rfl
  obtain ⟨q, hq, hpages⟩ : ∃ q, s.page sel sort (some 1) (some 2) = .ok q ∧ q.totalPages = 2 :=
    ⟨_, rfl, by decide⟩
  refine ⟨hs, ⟨q, hq, hpages⟩, ?_⟩
  obtain ⟨_, _, rows, -, -, hmem, -, -, hlength, hall⟩ := pages_partition hs hq
  obtain ⟨n, hconcat, hpage⟩ := hall 2 (by decide)
  obtain ⟨shown, _, hshown, -, -, hn, -⟩ := hpage 1 (by decide) (by decide)
  cases hq.symm.trans hshown
  cases Int.ofNat.inj (hn.symm.trans hpages)
  exact ⟨rows, Except.ok.inj (hlength.symm.trans hcount), fun r hr => ((hmem r).1 hr).1,
    hconcat (by decide)⟩

end Store

end Gridbook
