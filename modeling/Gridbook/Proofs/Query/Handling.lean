/-
Gridbook/Proofs/Query/Handling.lean

Which requests are handled: answered, or rejected for what is wrong with them.  The
check of a request looks at the form of its values and not at their size, and it
lets any value through for an equality.  So values that the store cannot take pass
the check, and the request ends in neither way.

Main statement: where nothing else is in the way, a request is handled exactly when
it is rejected or the store can take the values of all its filters and the numbers
that place the page (`handled_iff`).
-/
import Gridbook.Proofs.Query.Rejecting
import Gridbook.Proofs.Real.Range
import Gridbook.Proofs.Store.Answering
import Gridbook.Proofs.Store.Readable

namespace Gridbook

/-- Is there an answer, or a rejection of the request? -/
def Handled {α : Type} (x : Except Error α) : Prop :=
  (∃ a, x = .ok a) ∨ Rejected x

/-- The same as a test. -/
def isHandled {α : Type} : Except Error α → Bool
  | .ok _ => true
  | .error (.rejected _ _) => true
  | .error _ => false

theorem isHandled_iff {α : Type} {x : Except Error α} : isHandled x ↔ Handled x := by
  constructor
  · intro h
    unfold isHandled at h
    split at h
    · exact .inl ⟨_, rfl⟩
    · exact .inr ⟨_, _, rfl⟩
    · cases h
  · rintro (⟨a, rfl⟩ | ⟨_, _, rfl⟩)
    · rfl
    · rfl

instance {α : Type} (x : Except Error α) : Decidable (Handled x) :=
  decidable_of_iff _ isHandled_iff

theorem handled_bind {α β : Type} {x : Except Error α} {f : α → Except Error β} (hx : Handled x)
    (hf : ∀ a, x = .ok a → Handled (f a)) : Handled (x >>= f) := by
  rcases hx with ⟨a, rfl⟩ | hrejected
  · exact hf a rfl
  · exact .inr (rejected_bind_iff.2 (.inl hrejected))

theorem handled_mapM {α β : Type} {f : α → Except Error β} {as : List α}
    (h : ∀ a ∈ as, Handled (f a)) : Handled (as.mapM f) := by
  induction as with
  | nil => exact .inl ⟨[], rfl⟩
  | cons a as ih =>
    rw [List.mapM_cons]
    refine handled_bind (h a List.mem_cons_self) fun b _ => ?_
    refine handled_bind (ih fun c hc => h c (List.mem_cons_of_mem a hc)) fun bs _ => ?_
    exact .inl ⟨b :: bs, rfl⟩

theorem Sorting.handled_order (sort : Option Sorting) : Handled (Sorting.order sort) := by
  cases sort with
  | none => exact .inl ⟨_, rfl⟩
  | some o =>
    unfold Sorting.order Sorting.check
    dsimp only
    split
    · exact .inl ⟨_, rfl⟩
    split
    · exact .inl ⟨_, rfl⟩
    · exact .inr ⟨_, _, rfl⟩

/-! ### Values that can be taken -/

namespace Cell

/-- Has the store a scalar for the value?  It has none for lists and objects, and
whole numbers have to fit a word. -/
def HasScalar : Cell → Prop
  | .number (.whole n) => fitsWord n
  | .list _ => False
  | .object _ => False
  | .typed .noTime => False
  | _ => True

/-- Is it a whole number beyond the finite doubles? -/
def IsBeyondReals (c : Cell) : Prop :=
  ∃ n : Int, c.plain = .number (.whole n) ∧ Real.reach ≤ n.natAbs

theorem hasScalar_iff {c : Cell} : c.HasScalar ↔ ∃ v, Native.bind c = .ok v := by
  cases c with
  | number n =>
    cases n with
    | whole n =>
      rw [HasScalar, Native.bind, Native.bindWhole]
      split
      · next h => exact ⟨fun _ => ⟨_, rfl⟩, fun _ => h⟩
      · next h => exact ⟨fun hfits => absurd hfits h, nofun⟩
    | word w => exact ⟨fun _ => ⟨_, rfl⟩, fun _ => trivial⟩
    | real x => exact ⟨fun _ => ⟨_, rfl⟩, fun _ => trivial⟩
  | list items => exact ⟨nofun, nofun⟩
  | object members => exact ⟨nofun, nofun⟩
  | typed t =>
    cases t with
    | noTime => exact ⟨nofun, nofun⟩
    | _ => exact ⟨fun _ => ⟨_, rfl⟩, fun _ => trivial⟩
  | _ => exact ⟨fun _ => ⟨_, rfl⟩, fun _ => trivial⟩

theorem realOfNumber_overflow_iff {n : Number} :
    realOfNumber n = .error .overflow ↔ n.toReal? = none := by
  unfold realOfNumber
  cases n.toReal? with
  | none => exact ⟨fun _ => rfl, fun _ => rfl⟩
  | some x => exact ⟨nofun, nofun⟩

/-- By itself, a word is a whole number. -/
theorem plain_ne_word (c : Cell) (w : Int64) : c.plain ≠ .number (.word w) := by
  cases c with
  | number n => cases n <;> nofun
  | typed t => cases t <;> nofun
  | _ => nofun

/-- A value is beyond the doubles only as a whole number. -/
theorem spelledNumber_overflow_iff {c : Cell} :
    c.spelledNumber = .error .overflow ↔ c.IsBeyondReals := by
  have hwhole : ∀ n : Int, Number.toReal? (.whole n) = none ↔ Real.reach ≤ n.natAbs := fun _ =>
    Real.ofInt?_eq_none_iff
  unfold spelledNumber IsBeyondReals
  cases hplain : c.plain with
  | number n =>
    dsimp only
    rw [realOfNumber_overflow_iff]
    cases n with
    | whole n =>
      rw [hwhole]
      exact ⟨fun h => ⟨n, rfl, h⟩, fun ⟨m, hm, h⟩ => by cases hm; exact h⟩
    | word w => exact absurd hplain (plain_ne_word c w)
    | real x => exact ⟨nofun, nofun⟩
  | text s =>
    dsimp only
    cases Spelled.real? s with
    | none => exact ⟨nofun, nofun⟩
    | some x => exact ⟨nofun, nofun⟩
  | _ => exact ⟨nofun, nofun⟩

end Cell

/-- Can the store take the value for the comparison? -/
def Comparison.Takes (op : Comparison) (value : Cell) : Prop :=
  match op with
  | equal => value.HasScalar
  | contains => value.hasText
  | greater | less => ¬ value.IsBeyondReals

namespace Filter

variable {f valid : Filter} {op : Comparison}

/-- Can the store take the filter's value, if its operator is known? -/
def Takes (f : Filter) : Prop :=
  ∀ op, Comparison.ofName? f.operator = some op → op.Takes f.value

/-- Does the check of the filter come to a whole number beyond the doubles? -/
structure Overflows (f : Filter) : Prop where
  column : f.column ≠ ""
  operator : ∃ op, Comparison.ofName? f.operator = some op ∧ op.isNumeric
  value : f.value.IsBeyondReals

/-- Is what the filter searches for not too long? -/
def IsShort (f : Filter) : Prop :=
  Comparison.ofName? f.operator = some .contains →
    patternSize f.value.label.toList ≤ longestPattern

theorem Takes.not_overflows (h : f.Takes) : ¬ f.Overflows := by
  rintro ⟨-, ⟨op, hop, hnumeric⟩, hvalue⟩
  have htakes := h op hop
  cases op with
  | equal => cases hnumeric
  | contains => cases hnumeric
  | greater => exact htakes hvalue
  | less => exact htakes hvalue

theorem bound_cases (f : Filter) :
    (∃ x, f.value.spelledNumber = .ok x ∧ f.bound = .ok x) ∨ Rejected f.bound ∨
      f.value.IsBeyondReals ∧ f.bound = .error .overflow := by
  unfold bound
  cases hnumber : f.value.spelledNumber with
  | ok x => exact .inl ⟨x, rfl, rfl⟩
  | error fault =>
    cases fault with
    | overflow => exact .inr (.inr ⟨Cell.spelledNumber_overflow_iff.1 hnumber, rfl⟩)
    | badValue => exact .inr (.inl ⟨_, _, rfl⟩)
    | badKind => exact .inr (.inl ⟨_, _, rfl⟩)

/-- A filter passes its check, is rejected, or overflows. -/
theorem check_cases (f : Filter) :
    (∃ valid, f.check = .ok valid) ∨ Rejected f.check ∨
      f.Overflows ∧ f.check = .error .overflow := by
  unfold check
  split
  · exact .inr (.inl ⟨_, _, rfl⟩)
  next hcolumn =>
  split
  · exact .inr (.inl ⟨_, _, rfl⟩)
  next op hop =>
  split
  · next hnumeric =>
    rcases f.bound_cases with ⟨x, -, hx⟩ | ⟨_, _, h⟩ | ⟨hvalue, h⟩
    · rw [hx]
      exact .inl ⟨_, rfl⟩
    · rw [h]
      exact .inr (.inl ⟨_, _, rfl⟩)
    · rw [h]
      refine .inr (.inr ⟨⟨fun hempty => hcolumn ?_, ⟨op, hop, hnumeric⟩, hvalue⟩, rfl⟩)
      rw [hempty]
      rfl
  · split
    · exact .inr (.inl ⟨_, _, rfl⟩)
    · exact .inl ⟨_, rfl⟩

/-- A filter that overflows passes no check and is not rejected either. -/
theorem check_of_overflows (h : f.Overflows) : f.check = .error .overflow := by
  obtain ⟨op, hop, hnumeric⟩ := h.operator
  have hbound : f.bound = .error .overflow := by
    rw [bound, Cell.spelledNumber_overflow_iff.2 h.value]
  rw [check, String.isEmpty_eq_false_iff.2 h.column, hop]
  dsimp only
  rw [if_pos hnumeric, hbound]
  rfl

theorem handled_check_iff : Handled f.check ↔ ¬ f.Overflows := by
  constructor
  · intro h hover
    rw [check_of_overflows hover] at h
    rcases h with ⟨_, h⟩ | ⟨_, _, h⟩ <;> cases h
  · intro h
    rcases f.check_cases with hok | hrejected | ⟨hover, -⟩
    · exact .inl hok
    · exact .inr hrejected
    · exact absurd hover h

/-- The check leaves the value as it is where the operator does not need a number. -/
theorem eq_of_check (h : f.check = .ok valid) (hop : Comparison.ofName? f.operator = some op)
    (hnumeric : op.isNumeric = false) : valid = f := by
  obtain ⟨op', hop', ⟨hneeds, -⟩ | ⟨-, -, hvalid⟩⟩ := operator_of_check h
  · cases hop.symm.trans hop'
    exact absurd hneeds (Bool.eq_false_iff.1 hnumeric)
  · exact hvalid

/-- Of a filter that passes its check, the store can take the value where it can
search for it and bind it. -/
theorem takes_iff (h : f.check = .ok valid) (hop : Comparison.ofName? f.operator = some op) :
    op.Takes f.value ↔
      Selection.isSearchable valid op ∧ ∃ test, Test.bind op valid.value = .ok test := by
  obtain ⟨op', hop', hcases⟩ := operator_of_check h
  cases hop.symm.trans hop'
  rcases hcases with ⟨hnumeric, x, hx, rfl⟩ | ⟨hnumeric, hnull, rfl⟩
  · -- a comparison of numbers: the check has cast the value, so it is no longer in the way
    have hfits : ¬ f.value.IsBeyondReals := by
      intro hvalue
      rw [bound, Cell.spelledNumber_overflow_iff.2 hvalue] at hx
      cases hx
    cases op with
    | equal => cases hnumeric
    | contains => cases hnumeric
    | greater => exact ⟨fun _ => ⟨rfl, _, rfl⟩, fun _ => hfits⟩
    | less => exact ⟨fun _ => ⟨rfl, _, rfl⟩, fun _ => hfits⟩
  · cases op with
    | equal =>
      rw [Test.bind, hnull, if_neg Bool.false_ne_true]
      refine Cell.hasScalar_iff.trans ?_
      constructor
      · rintro ⟨v, hv⟩
        refine ⟨rfl, .equals v, ?_⟩
        rw [hv]
        rfl
      · rintro ⟨-, test, htest⟩
        obtain ⟨v, hv, -⟩ := Outcome.map_eq_ok.1 htest
        exact ⟨v, hv⟩
    | contains => exact ⟨fun htext => ⟨htext, _, rfl⟩, fun hfound => hfound.1⟩
    | greater => exact absurd rfl hnumeric
    | less => exact absurd rfl hnumeric

/-- A filter is sound if it passes its check and the store can take its value. -/
theorem sound_of_takes (hplain : Path.isPlain f.column) (hshort : f.IsShort)
    (h : f.check = .ok valid) (htakes : f.Takes) : f.Sound := by
  refine ⟨hplain, ?_⟩
  cases hop : Comparison.ofName? f.operator with
  | none =>
    obtain ⟨op, hop', -⟩ := operator_of_check h
    cases hop.symm.trans hop'
  | some op =>
    obtain ⟨hsearchable, test, htest⟩ := (takes_iff h hop).1 (htakes op hop)
    refine ⟨valid, op, test, h, rfl, hsearchable, htest, ?_⟩
    -- only a search has a test that has to be short, and it takes the value as it is
    cases op with
    | equal =>
      rw [Test.bind] at htest
      split at htest
      · cases htest
        exact trivial
      · obtain ⟨v, -, rfl⟩ := Outcome.map_eq_ok.1 htest
        exact trivial
    | greater =>
      obtain ⟨v, -, rfl⟩ := Outcome.map_eq_ok.1 htest
      exact trivial
    | less =>
      obtain ⟨v, -, rfl⟩ := Outcome.map_eq_ok.1 htest
      exact trivial
    | contains =>
      cases htest
      rw [eq_of_check h hop rfl]
      exact hshort hop

/-- The problems of filters can be listed exactly if none of them overflows. -/
theorem exists_problems_iff {fs : List Filter} :
    (∃ ps, problems fs = .ok ps) ↔ ∀ f ∈ fs, ¬ f.Overflows := by
  induction fs with
  | nil => exact ⟨fun _ => nofun, fun _ => ⟨[], rfl⟩⟩
  | cons f fs ih =>
    rw [List.forall_mem_cons, ← ih, problems]
    rcases f.check_cases with ⟨valid, hf⟩ | ⟨ps, headline, hf⟩ | ⟨hover, hf⟩
    · have hfits : ¬ f.Overflows := handled_check_iff.1 (.inl ⟨valid, hf⟩)
      rw [hf]
      exact ⟨fun h => ⟨hfits, h⟩, fun h => h.2⟩
    · have hfits : ¬ f.Overflows := handled_check_iff.1 (.inr ⟨ps, headline, hf⟩)
      rw [hf]
      constructor
      · rintro ⟨_, hlisted⟩
        obtain ⟨rest, hrest, -⟩ := Outcome.map_eq_ok.1 hlisted
        exact ⟨hfits, rest, hrest⟩
      · rintro ⟨-, rest, hrest⟩
        exact ⟨ps ++ rest, Outcome.map_eq_ok.2 ⟨rest, hrest, rfl⟩⟩
    · rw [hf]
      constructor
      · rintro ⟨_, hlisted⟩
        cases hlisted
      · exact fun h => absurd hover h.1

end Filter

namespace Store

variable {s : Store} {sel valid : Selection}

/-! ### Requests that nothing else is in the way of -/

/-- Is nothing in the way of the request but the values of its filters?  Its owner and
dataset are numbers that the store has, its columns are plain, its searches are not too
long, and the rows that it covers can be looked into. -/
structure Ready (s : Store) (sel : Selection) : Prop where
  owner : ∀ n ∈ sel.owner, fitsWord n
  dataset : ∀ n ∈ sel.dataset, fitsWord n
  columns : ∀ f ∈ sel.filters, Path.isPlain f.column
  searches : ∀ f ∈ sel.filters, f.IsShort
  required : ∀ column ∈ sel.required, Path.isPlain column
  rows : ∀ r ∈ s.rows, sel.covers r → Native.wellFormedMembers r.fields

theorem check_of_checked (h : checked sel = .ok valid) :
    ∀ f ∈ sel.filters, ∃ v ∈ valid.filters, f.check = .ok v := by
  obtain ⟨filters, hfilters, h⟩ := Outcome.bind_eq_ok.1 h
  cases h
  exact fun f hf => Outcome.ok_of_mem_mapM hfilters hf

/-- Filters are checked one after another, so a selection whose filters do not
overflow passes the check or is rejected. -/
theorem handled_checked (h : ∀ f ∈ sel.filters, ¬ f.Overflows) : Handled (checked sel) := by
  have hfilters : Handled (sel.filters.mapM Filter.check) :=
    handled_mapM fun f hf => Filter.handled_check_iff.2 (h f hf)
  exact handled_bind hfilters fun filters _ => .inl ⟨{ sel with filters := filters }, rfl⟩

/-- The store has taken the values of the filters that it makes conditions of. -/
theorem takes_of_conditions {ops : List (Filter × Comparison)} {conds : List Condition}
    (hvalid : checked sel = .ok valid) (hops : valid.comparisons = .ok ops)
    (hconds : s.conditions valid ops = .ok conds) : ∀ f ∈ sel.filters, f.Takes := by
  intro f hf op hop
  obtain ⟨v, hv, hcheck⟩ := check_of_checked hvalid f hf
  obtain ⟨p, hp, hstep⟩ := Outcome.ok_of_mem_mapM hops hv
  rw [(Filter.check_eq_ok hcheck).2.1, hop] at hstep
  dsimp only at hstep
  split at hstep
  · next hsearchable =>
    cases hstep
    obtain ⟨cs, hcs, -⟩ := conditions_eq_ok hconds
    obtain ⟨c, -, hc⟩ := Outcome.ok_of_mem_mapM (Outcome.mapM_eq_ok.2 hcs) hp
    obtain ⟨test, htest, -⟩ := Outcome.map_eq_ok.1 hc
    exact (Filter.takes_iff hcheck hop).2 ⟨hsearchable, test, htest⟩
  · cases hstep

theorem Ready.sound (h : s.Ready sel) (hvalid : checked sel = .ok valid)
    (htakes : ∀ f ∈ sel.filters, f.Takes) : sel.Sound where
  owner := h.owner
  dataset := h.dataset
  filters f hf := by
    obtain ⟨v, -, hcheck⟩ := check_of_checked hvalid f hf
    exact Filter.sound_of_takes (h.columns f hf) (h.searches f hf) hcheck (htakes f hf)
  required := h.required

theorem Ready.legible (h : s.Ready sel) (hs : s.Reachable) : s.Legible sel :=
  ⟨hs.hasTable .rows, h.rows⟩

/-! ### Requests that are handled -/

section Ready

variable (hs : s.Reachable) (h : s.Ready sel) (hvalid : checked sel = .ok valid)

include hs h hvalid

/-- A request that passes its check is counted exactly if the store can take the values
of its filters. -/
theorem exists_count_iff [Reader] : (∃ n, s.count valid = .ok n) ↔ ∀ f ∈ sel.filters, f.Takes := by
  constructor
  · rintro ⟨n, hn⟩
    obtain ⟨ops, conds, found, hops, hconds, -⟩ := count_eq_ok.1 hn
    exact takes_of_conditions hvalid hops hconds
  · intro htakes
    obtain ⟨valid', ops, conds, found, hvalid', hops, hconds, hfound, -⟩ :=
      exists_found (h.sound hvalid htakes) (h.legible hs)
    cases hvalid.symm.trans hvalid'
    exact ⟨found.length, count_eq_ok.2 ⟨ops, conds, found, hops, hconds, hfound, rfl⟩⟩

/-- A page that passes its checks is answered exactly if the store can take the values
of the filters and the two numbers that place the page. -/
theorem exists_page_iff [Reader] {sort : Option Sorting} {order : Order}
    (horder : Sorting.order sort = .ok order) (hsound : order.Sound) {page limit : Int}
    (hpage : 1 ≤ page) (hlimit : 1 ≤ limit) :
    (∃ q, s.page sel sort (some page) (some limit) = .ok q) ↔
      (∀ f ∈ sel.filters, f.Takes) ∧ limit < 2 ^ 63 ∧ (page - 1) * limit < 2 ^ 63 := by
  constructor
  · rintro ⟨q, hq⟩
    obtain ⟨_, _, _, valid', _, _, -, -, -, -, -, hvalid', hfetch, -⟩ := page_eq_ok.1 hq
    obtain ⟨ops, p, l, shown, hops, hp, hl, hwindow, -⟩ := fetch_eq_ok.1 hfetch
    cases hp
    cases hl
    -- the size and the place of the page are bound to the statement, so they fit words
    obtain ⟨hstatement, conds, -, -, hconds, -⟩ := (windowOf_eq_ok hlimit).1 hwindow
    have hfits := (statement_eq_ok.1 hstatement).2
    rw [List.forall_mem_cons, List.forall_mem_singleton, fitsWord_iff, fitsWord_iff] at hfits
    exact ⟨takes_of_conditions hvalid' hops hconds, hfits.1.2, hfits.2.2⟩
  · rintro ⟨htakes, hsize, hplace⟩
    obtain ⟨valid', rows, hvalid', hfinds⟩ :=
      exists_finds (h.sound hvalid htakes) hsound (h.legible hs) hs.integral.rowIds
    exact ⟨_, page_of_finds hvalid' horder hfinds hpage hlimit hsize hplace⟩

end Ready

/-- A count is handled exactly if it is rejected for its filters, or the store can take
the values of all of them. -/
theorem handled_rowCount_iff [Reader] (hs : s.Reachable) (h : s.Ready sel) :
    Handled (s.rowCount sel) ↔ Rejected (checked sel) ∨ ∀ f ∈ sel.filters, f.Takes := by
  constructor
  · rintro (⟨n, hn⟩ | hrejected)
    · obtain ⟨valid, hvalid, hn⟩ := rowCount_eq_ok.1 hn
      exact .inr ((exists_count_iff hs h hvalid).1 ⟨n, hn⟩)
    · refine .inl ((rejected_bind_iff.1 hrejected).resolve_right ?_)
      rintro ⟨valid, -, hrejected⟩
      exact not_rejected_count valid hrejected
  · rintro (hrejected | htakes)
    · exact .inr (rejected_bind_iff.2 (.inl hrejected))
    · refine handled_bind (handled_checked fun f hf => (htakes f hf).not_overflows) ?_
      exact fun valid hvalid => .inl ((exists_count_iff hs h hvalid).2 htakes)

/-- A page by its parts, where its number and its size are in order. -/
theorem page_eq_bind [Reader] {page limit : Int} (hpage : 1 ≤ page) (hlimit : 1 ≤ limit)
    (sort : Option Sorting) :
    s.page sel sort (some page) (some limit) = (do
      let order ← Sorting.order sort
      let valid ← checked sel
      let (records, total) ← s.fetch valid order (some page) (some limit)
      return ⟨records, total, page, limit⟩) := by
  show (do
    if page < 1 then throw (Error.problem .pageTooSmall)
    if limit ≤ 0 then throw (Error.problem .limitTooSmall)
    let order ← Sorting.order sort
    let valid ← checked sel
    let (records, total) ← s.fetch valid order (some page) (some limit)
    return (⟨records, total, page, limit⟩ : Page)) = _
  rw [if_neg (Int.not_lt.2 hpage), if_neg (Int.not_le.2 hlimit)]

/-- Whatever a page is rejected for is found before any row is looked at. -/
theorem rejected_page_iff [Reader] {sort : Option Sorting} {page limit : Int} (hpage : 1 ≤ page)
    (hlimit : 1 ≤ limit) :
    Rejected (s.page sel sort (some page) (some limit)) ↔
      Rejected (Sorting.order sort) ∨
        (∃ order, Sorting.order sort = .ok order) ∧ Rejected (checked sel) := by
  have hbind : s.page sel sort (some page) (some limit) = _ := page_eq_bind hpage hlimit sort
  constructor
  · intro hrejected
    have hparts := hrejected
    rw [hbind, rejected_bind_iff] at hparts
    -- with the order and the filters checked, a page is not rejected any more
    refine hparts.imp_right fun ⟨order, horder, hrest⟩ => ⟨⟨order, horder⟩, ?_⟩
    refine (rejected_bind_iff.1 hrest).resolve_right fun ⟨valid, hvalid, _⟩ => ?_
    have hchecked : ∀ f ∈ sel.filters, ∃ v, f.check = .ok v := by
      intro f hf
      obtain ⟨v, -, hv⟩ := check_of_checked hvalid f hf
      exact ⟨v, hv⟩
    exact not_rejected_page hchecked horder hpage hlimit hrejected
  · rw [hbind]
    rintro (horder | ⟨⟨order, horder⟩, hchecked⟩)
    · exact rejected_bind_iff.2 (.inl horder)
    · exact rejected_bind_iff.2 (.inr ⟨order, horder, rejected_bind_iff.2 (.inl hchecked)⟩)

theorem handled_page_iff [Reader] (hs : s.Reachable) (h : s.Ready sel) {sort : Option Sorting}
    (hsort : ∀ o ∈ sort, ∀ column ∈ o.column, Path.isPlain column) (page limit : Int) :
    Handled (s.page sel sort (some page) (some limit)) ↔
      page < 1 ∨ limit < 1 ∨ Rejected (Sorting.order sort) ∨ Rejected (checked sel) ∨
        (∀ f ∈ sel.filters, f.Takes) ∧ limit < 2 ^ 63 ∧ (page - 1) * limit < 2 ^ 63 := by
  by_cases hpage : page < 1
  · have hrejected : s.page sel sort (some page) (some limit) = .error (.problem .pageTooSmall) :=
      if_pos hpage
    rw [hrejected]
    exact ⟨fun _ => .inl hpage, fun _ => .inr ⟨_, _, rfl⟩⟩
  by_cases hlimit : limit < 1
  · have hrejected : s.page sel sort (some page) (some limit) = .error (.problem .limitTooSmall) :=
      (if_neg hpage).trans (if_pos (by omega))
    rw [hrejected]
    exact ⟨fun _ => .inr (.inl hlimit), fun _ => .inr ⟨_, _, rfl⟩⟩
  rw [or_iff_right hpage, or_iff_right hlimit]
  have hpage : 1 ≤ page := Int.not_lt.1 hpage
  have hlimit : 1 ≤ limit := Int.not_lt.1 hlimit
  rw [Handled, rejected_page_iff hpage hlimit]
  rcases Sorting.handled_order sort with ⟨order, horder⟩ | hrejected
  · have hsound := Sorting.sound_order horder hsort
    constructor
    · rintro (⟨q, hq⟩ | hrejected | ⟨-, hrejected⟩)
      · obtain ⟨_, _, _, valid, _, _, -, -, -, -, -, hvalid, -⟩ := page_eq_ok.1 hq
        exact .inr (.inr ((exists_page_iff hs h hvalid horder hsound hpage hlimit).1 ⟨q, hq⟩))
      · exact .inl hrejected
      · exact .inr (.inl hrejected)
    · rintro (hrejected | hrejected | hall)
      · exact .inr (.inl hrejected)
      · exact .inr (.inr ⟨⟨order, horder⟩, hrejected⟩)
      · have hchecked : Handled (checked sel) :=
          handled_checked fun f hf => (hall.1 f hf).not_overflows
        rcases hchecked with ⟨valid, hvalid⟩ | hrejected
        · exact .inl ((exists_page_iff hs h hvalid horder hsound hpage hlimit).2 hall)
        · exact .inr (.inr ⟨⟨order, horder⟩, hrejected⟩)
  · exact ⟨fun _ => .inl hrejected, fun _ => .inr (.inl hrejected)⟩

/-- Where nothing is in the way but the request itself, the problems of its filters can
be listed if none of them is a comparison with a whole number beyond the doubles.  A
count is handled exactly if the filters are rejected or the store can take all their
values: a scalar to be equal to, a text to search for, a double to compare with.  A page
is handled exactly if it is rejected, or if that is so and its size and its place fit
words. -/
theorem handled_iff [Reader] (hs : s.Reachable) (h : s.Ready sel) :
    ((∃ ps, Filter.problems sel.filters = .ok ps) ↔ ∀ f ∈ sel.filters, ¬ f.Overflows) ∧
    (Handled (s.rowCount sel) ↔ Rejected (checked sel) ∨ ∀ f ∈ sel.filters, f.Takes) ∧
    ∀ (sort : Option Sorting) (page limit : Int),
      (∀ o ∈ sort, ∀ column ∈ o.column, Path.isPlain column) →
      (Handled (s.page sel sort (some page) (some limit)) ↔
        page < 1 ∨ limit < 1 ∨ Rejected (Sorting.order sort) ∨ Rejected (checked sel) ∨
          (∀ f ∈ sel.filters, f.Takes) ∧ limit < 2 ^ 63 ∧ (page - 1) * limit < 2 ^ 63) :=
  ⟨Filter.exists_problems_iff, handled_rowCount_iff hs h,
    fun _ page limit hsort => handled_page_iff hs h hsort page limit⟩

/-- Three filters whose values can be taken, and a page whose place fits a word. -/
theorem handled_iff_three :
    let s := empty.run [.ingest (some 1) (some "t") none ⟨[.text "a"], [[.bool true]], false⟩]
    let sel : Selection := ⟨some 1, some 1, [⟨"a", "eq", .bool true⟩, ⟨"b", "contains", .text "1"⟩,
      ⟨"b", "lt", .text "2.5"⟩], ["a"]⟩
    (∃ ps, Filter.problems sel.filters = .ok ps) ∧ Handled (s.rowCount sel) ∧
      Handled (s.page sel (some ⟨some "a", some "DESC"⟩) (some 3) (some (2 ^ 61))) := by
  intro s sel
  have hready : s.Ready sel := by
    refine ⟨by decide, by decide, by decide, ?_, by decide, by decide +kernel⟩
    refine List.forall_mem_cons.2 ⟨nofun, List.forall_mem_cons.2 ⟨fun _ => by decide, ?_⟩⟩
    exact List.forall_mem_singleton.2 nofun
  have htakes : ∀ f ∈ sel.filters, f.Takes := by
    refine List.forall_mem_cons.2 ⟨?_, List.forall_mem_cons.2 ⟨?_, List.forall_mem_singleton.2 ?_⟩⟩
    · rintro _ ⟨⟩
      exact trivial
    · rintro _ ⟨⟩
      exact rfl
    · rintro _ ⟨⟩ ⟨n, hn, -⟩
      cases hn
  obtain ⟨hproblems, hcount, hpage⟩ := handled_iff ⟨_, rfl⟩ hready
  refine ⟨hproblems.2 fun f hf => (htakes f hf).not_overflows, hcount.2 (.inr htakes), ?_⟩
  refine (hpage _ 3 (2 ^ 61) (by decide)).2 (.inr (.inr (.inr (.inr ⟨htakes, ?_, ?_⟩))))
  · decide
  · decide

/-- Values that pass the check and that the store cannot take: a whole number beyond
the doubles, a list, a whole number beyond 64 bits, and such a size of a page. -/
theorem untaken_values_escape :
    let s := empty.run [.ingest (some 1) (some "t") none ⟨[.text "a"], [[.bool true]], false⟩]
    let asking (filters : List Filter) : Selection := ⟨some 1, some 1, filters, []⟩
    let large : Filter := ⟨"a", "gt", .number (.whole (tenTo 400))⟩
    s.Reachable ∧ (∀ r ∈ s.rows, Native.wellFormedMembers r.fields) ∧
      (∀ f ∈ [large, ⟨"a", "eq", .list []⟩, ⟨"a", "eq", .number (.whole (2 ^ 63))⟩],
        ¬ Handled (s.page (asking [f]) none (some 1) (some 10)) ∧
        ¬ Handled (s.rowCount (asking [f]))) ∧
      ¬ Handled (s.page (asking []) none (some 1) (some (2 ^ 63))) ∧
      ¬ ∃ ps, Filter.problems [large] = .ok ps := by
  intro s asking large
  have hlarge : large.Overflows :=
    ⟨by decide, ⟨.greater, rfl, rfl⟩, tenTo 400, rfl, by decide +kernel⟩
  refine ⟨⟨_, rfl⟩, by decide +kernel, ?_, by decide +kernel, fun hproblems => ?_⟩
  · decide +kernel
  · exact Filter.exists_problems_iff.1 hproblems large List.mem_cons_self hlarge

end Store

end Gridbook
