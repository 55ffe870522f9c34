/-
Gridbook/Proofs/Formula/Settling.lean

Which rows a batch gets over.  A row settles if the formula has a double there, or
a fault of the row's own; what the other rows hold does not matter.  A batch has
a result exactly when all of its rows settle, and then it is made of what they
settle to, row by row.

A row need not settle: a whole number beyond the doubles ends the batch wherever
a double is needed, and so does a cell that is no number and has no text.  Sizes
that keep clear of that are found on the formula alone.  `Tree.ceiling` bounds
the whole numbers that a tree comes to, from a bound on those in the cells, and
`Tree.Fits` asks that no part of the tree reaches the end of the doubles.

Main statement: `batch_settles`, what a batch is, a bound under which it is never
aborted, and cells that do abort it.
-/
import Gridbook.Formula.Batch
import Gridbook.Proofs.Formula.Grammar
import Gridbook.Proofs.Real.Range

namespace Gridbook

/-! ### Sizes -/

/-- A number that is no word, and at most this large if it is a whole one. -/
def Number.Within (bound : Nat) : Number → Prop
  | whole n => n.natAbs ≤ bound
  | word _ => False
  | real _ => True

/-- A value that can be stored, with a number of at most this size or with a
text to show. -/
def Cell.Bounded (bound : Nat) : Cell → Prop
  | number (.whole n) => n.natAbs ≤ bound
  | number (.word _) => False
  | typed _ => False
  | c => c.hasText

namespace Number

variable {a b : Number} {A B bound : Nat}

/-- Whole numbers below the end of the doubles have nearest doubles. -/
theorem exists_toReal (h : a.Within bound) (hb : bound < Real.reach) :
    ∃ x, a.toReal? = some x := by
  cases a with
  | whole n => exact Real.exists_ofInt?_iff.2 (Nat.lt_of_le_of_lt h hb)
  | word w => exact h.elim
  | real x => exact ⟨x, rfl⟩

theorem within_neg (h : a.Within bound) : a.neg.Within bound := by
  cases a with
  | whole n => exact Nat.le_trans (Nat.le_of_eq (Int.natAbs_neg n)) h
  | word w => exact h.elim
  | real x => trivial

theorem exists_viaReals (onReals : Float → Float → Float) (ha : a.Within A) (hb : b.Within B)
    (hA : A < Real.reach) (hB : B < Real.reach) : ∃ x, viaReals? onReals a b = some (real x) := by
  obtain ⟨x, hx⟩ := exists_toReal ha hA
  obtain ⟨y, hy⟩ := exists_toReal hb hB
  refine ⟨onReals x y, ?_⟩
  rw [viaReals?, hx, hy]
  rfl

/-- An operation has a result if doubles can be had, and as large a one as it has
on whole numbers. -/
theorem exists_combine (onWholes : Int → Int → Int) (onWords : Int64 → Int64 → Int64)
    (onReals : Float → Float → Float) (ha : a.Within A) (hb : b.Within B) (hA : A < Real.reach)
    (hB : B < Real.reach)
    (hwhole : ∀ m n : Int, m.natAbs ≤ A → n.natAbs ≤ B → (onWholes m n).natAbs ≤ bound) :
    ∃ r, combine? onWholes onWords onReals a b = some r ∧ r.Within bound := by
  obtain ⟨x, hx⟩ := exists_viaReals onReals ha hb hA hB
  cases a with
  | word w => exact ha.elim
  | real u => exact ⟨real x, hx, trivial⟩
  | whole m =>
    cases b with
    | word w => exact hb.elim
    | real v => exact ⟨real x, hx, trivial⟩
    | whole n => exact ⟨whole (onWholes m n), rfl, hwhole m n ha hb⟩

theorem exists_div (ha : a.Within A) (hb : b.Within B) (hA : A < Real.reach)
    (hB : B < Real.reach) (hzero : b.isZero = false) : ∃ x, div? a b = some (real x) := by
  have hreals := exists_viaReals (· / ·) ha hb hA hB
  cases a with
  | word w => exact ha.elim
  | real u => exact hreals
  | whole m =>
    cases b with
    | word w => exact hb.elim
    | real v => exact hreals
    | whole n =>
      have hne : n ≠ 0 := fun h => Bool.eq_false_iff.1 hzero (beq_iff_eq.2 h)
      obtain ⟨x, hx⟩ := Option.isSome_iff_exists.1
        (Real.quotient?_isSome (Nat.lt_of_le_of_lt ha hA) hne)
      exact ⟨x, congrArg (Option.map real) hx⟩

end Number

namespace Cell

/-- As an equation of functions: on an integer, the kernel would compute its double
before it compares the two sides. -/
theorem realOfWhole_eq :
    realOfWhole = fun n =>
      match Real.ofInt? n with
      | some x => .ok x
      | none => .error .overflow := by
  rfl

theorem strictNumber_whole {n : Int} (h : n.natAbs < Real.reach) :
    (number (.whole n)).strictNumber = .ok (some (.whole n)) := by
  obtain ⟨x, hx⟩ := Real.exists_ofInt?_iff.2 h
  have hreal : realOfWhole n = .ok x := by
    rw [realOfWhole_eq]
    dsimp only
    rw [hx]
  rw [strictNumber, hreal]
  rfl

/-- A whole number beyond the doubles cannot be read. -/
theorem strictNumber_of_reach {n : Int} (h : Real.reach ≤ n.natAbs) :
    (number (.whole n)).strictNumber = .error .overflow := by
  have hreal : realOfWhole n = .error .overflow := by
    rw [realOfWhole_eq]
    dsimp only
    rw [Real.ofInt?_eq_none_iff.2 h]
  rw [strictNumber, hreal]
  rfl

/-- A cell that is a number, or that cannot be read, is no null. -/
theorem isNull_eq_false_of_strictNumber {c : Cell} (h : c.strictNumber ≠ .ok none) :
    c.isNull = false := by
  refine Bool.eq_false_iff.2 fun hnull => h ?_
  rw [eq_null_of_isNull hnull]
  rfl

/-- The strict reading of a bounded cell: a number of that size, or no number but a
text. -/
theorem Bounded.strictNumber {c : Cell} {bound : Nat} (h : c.Bounded bound)
    (hb : bound < Real.reach) :
    (∃ n : Number, c.strictNumber = .ok (some n) ∧ n.Within bound) ∨
      c.strictNumber = .ok none ∧ c.hasText := by
  cases c with
  | null => exact .inr ⟨rfl, rfl⟩
  | bool b => exact .inr ⟨rfl, rfl⟩
  | list items => exact .inr ⟨rfl, h⟩
  | object members => exact .inr ⟨rfl, h⟩
  | typed t => exact h.elim
  | text s =>
    rw [Cell.strictNumber]
    cases Literal.plainReal? (Text.trim s.toList) with
    | none => exact .inr ⟨rfl, rfl⟩
    | some x => exact .inl ⟨.real x, rfl, trivial⟩
  | number n =>
    cases n with
    | word w => exact h.elim
    | whole n => exact .inl ⟨.whole n, strictNumber_whole (Nat.lt_of_le_of_lt h hb), h⟩
    | real x =>
      rw [Cell.strictNumber, finiteNumber?]
      split
      · exact .inl ⟨.real x, rfl, trivial⟩
      · exact .inr ⟨rfl, rfl⟩

end Cell

namespace Formula

/-! ### Bounds on trees -/

/-- How large a whole number an operator makes of whole numbers of these sizes.  A
quotient is never whole. -/
def Operator.ceiling (A B : Nat) : Operator → Nat
  | plus => A + B
  | minus => A + B
  | times => A * B
  | divide => 0

namespace Tree

/-- How large a whole number a tree comes to, where the cells hold whole numbers up
to `bound`.  Literals are doubles. -/
def ceiling (bound : Nat) : Tree → Nat
  | literal _ => 0
  | column _ => bound
  | negate t => t.ceiling bound
  | binary op l r => op.ceiling (l.ceiling bound) (r.ceiling bound)

/-- No part of the tree comes to a whole number that has no nearest double. -/
def Fits (bound : Nat) : Tree → Prop
  | literal _ => True
  | column _ => bound < Real.reach
  | negate t => t.Fits bound
  | binary op l r => l.Fits bound ∧ r.Fits bound ∧
      op.ceiling (l.ceiling bound) (r.ceiling bound) < Real.reach

theorem Fits.ceiling_lt {bound : Nat} {t : Tree} (h : t.Fits bound) :
    t.ceiling bound < Real.reach := by
  induction t with
  | literal x => exact Real.reach_pos
  | column name => exact h
  | negate t ih => exact ih h
  | binary op l r => exact h.2.2

end Tree

/-! ### Evaluation within bounds -/

/-- An evaluation that ends with a number of this size, or with a fault of the
row. -/
inductive Sized (bound : Nat) : Except Error Number → Prop
  | value {n} : n.Within bound → Sized bound (.ok n)
  | fault (fault) : Sized bound (.error (.evaluation fault))

variable {fields : Fields} {bound A B : Nat}

/-- A step after an evaluation of some size; a fault of the row ends both. -/
theorem Sized.bind {x : Except Error Number} {f : Number → Except Error Number}
    (h : Sized A x) (hf : ∀ n, n.Within A → Sized bound (f n)) : Sized bound (x >>= f) := by
  cases h with
  | value hn => exact hf _ hn
  | fault fault => exact .fault fault

theorem columnValue_of_some {name : String} {n : Number}
    (h : (fields.cell name).strictNumber = .ok (some n)) : columnValue fields name = .ok n := by
  have hnull : (fields.cell name).isNull = false := Cell.isNull_eq_false_of_strictNumber (h ▸ nofun)
  unfold columnValue
  dsimp only
  rw [hnull, if_neg Bool.false_ne_true, h]

/-- A cell that is no number is a fault of the row, if it can be shown. -/
theorem columnValue_of_none {name : String} (h : (fields.cell name).strictNumber = .ok none)
    (htext : (fields.cell name).hasText) :
    ∃ fault, columnValue fields name = .error (.evaluation fault) := by
  unfold columnValue
  dsimp only
  split
  · exact ⟨_, rfl⟩
  · rw [h]
    exact ⟨_, rfl⟩

theorem columnValue_of_error {name : String} {e : Cell.Fault}
    (h : (fields.cell name).strictNumber = .error e) :
    columnValue fields name = .error (.conversion e) := by
  have hnull : (fields.cell name).isNull = false := Cell.isNull_eq_false_of_strictNumber (h ▸ nofun)
  unfold columnValue
  dsimp only
  rw [hnull, if_neg Bool.false_ne_true, h]

theorem sized_columnValue {name : String} (h : (fields.cell name).Bounded bound)
    (hb : bound < Real.reach) : Sized bound (columnValue fields name) := by
  rcases h.strictNumber hb with ⟨n, hn, hwithin⟩ | ⟨hnone, htext⟩
  · rw [columnValue_of_some hn]
    exact .value hwithin
  · obtain ⟨fault, hfault⟩ := columnValue_of_none hnone htext
    rw [hfault]
    exact .fault fault

theorem sized_orOverflow {r : Option Number} :
    (∃ n, r = some n ∧ n.Within bound) →
      Sized bound (match r with | some n => .ok n | none => .error .overflow) := by
  rintro ⟨n, rfl, hn⟩
  exact .value hn

/-- Only a quotient can be a fault of the row. -/
theorem Operator.sized_apply {op : Operator} {a b : Number} (ha : a.Within A) (hb : b.Within B)
    (hA : A < Real.reach) (hB : B < Real.reach) : Sized (op.ceiling A B) (op.apply a b) := by
  cases op with
  | plus =>
    have hsum : ∀ m n : Int, m.natAbs ≤ A → n.natAbs ≤ B → (m + n).natAbs ≤ A + B := by omega
    exact sized_orOverflow (Number.exists_combine _ _ _ ha hb hA hB hsum)
  | minus =>
    have hdifference : ∀ m n : Int, m.natAbs ≤ A → n.natAbs ≤ B → (m - n).natAbs ≤ A + B := by
      omega
    exact sized_orOverflow (Number.exists_combine _ _ _ ha hb hA hB hdifference)
  | times =>
    have hproduct : ∀ m n : Int, m.natAbs ≤ A → n.natAbs ≤ B → (m * n).natAbs ≤ A * B := by
      intro m n hm hn
      rw [Int.natAbs_mul]
      exact Nat.mul_le_mul hm hn
    exact sized_orOverflow (Number.exists_combine _ _ _ ha hb hA hB hproduct)
  | divide =>
    unfold apply
    dsimp only
    split
    · exact .fault _
    · next hzero =>
      obtain ⟨x, hx⟩ := Number.exists_div ha hb hA hB (Bool.eq_false_iff.2 hzero)
      exact sized_orOverflow ⟨.real x, hx, trivial⟩

/-- A tree that fits has a value of its ceiling's size, or a fault of the row. -/
theorem Tree.sized_value {t : Tree} (hfits : t.Fits bound)
    (hcells : ∀ name ∈ t.names, (fields.cell name).Bounded bound) :
    Sized (t.ceiling bound) (t.value fields) := by
  induction t with
  | literal x => exact .value trivial
  | column name => exact sized_columnValue (hcells name List.mem_cons_self) hfits
  | negate t ih => exact (ih hfits hcells).bind fun n hn => .value (Number.within_neg hn)
  | binary op l r ihl ihr =>
    obtain ⟨hl, hr, -⟩ := hfits
    -- the right side is only reached from a number on the left, the operator from both
    refine (ihl hl fun name h => hcells name (List.mem_append_left _ h)).bind fun a ha => ?_
    refine (ihr hr fun name h => hcells name (List.mem_append_right _ h)).bind fun b hb => ?_
    exact Operator.sized_apply ha hb hl.ceiling_lt hr.ceiling_lt

/-! ### Rows -/

/-- What a row comes to in a batch: a double, or a fault of its own. -/
inductive Settles (f : Formula) (fields : Fields) : Except Fault Float → Prop
  | value {n x} : f.value fields = .ok n → n.toReal? = some x → Settles f fields (.ok x)
  | fault {fault} : f.value fields = .error (.evaluation fault) → Settles f fields (.error fault)

variable {f : Formula}

/-- A row comes to one thing only, whatever the rows beside it are. -/
theorem Settles.unique {o o' : Except Fault Float} (h : f.Settles fields o)
    (h' : f.Settles fields o') : o = o' := by
  rcases h with ⟨hn, hx⟩ | hfault
  · rcases h' with ⟨hn', hx'⟩ | hfault'
    · cases hn.symm.trans hn'
      exact congrArg _ (Option.some.inj (hx.symm.trans hx'))
    · cases hn.symm.trans hfault'
  · rcases h' with ⟨hn', -⟩ | hfault'
    · cases hfault.symm.trans hn'
    · cases hfault.symm.trans hfault'
      rfl

theorem exists_settles (hfits : f.tree.Fits bound)
    (hcells : ∀ name ∈ f.tree.names, (fields.cell name).Bounded bound) :
    ∃ o, f.Settles fields o := by
  have hsized := Tree.sized_value hfits hcells
  cases hvalue : f.value fields with
  | ok n =>
    rw [← value, hvalue] at hsized
    cases hsized with
    | value hn =>
      obtain ⟨x, hx⟩ := Number.exists_toReal hn hfits.ceiling_lt
      exact ⟨.ok x, .value hvalue hx⟩
  | error e =>
    rw [← value, hvalue] at hsized
    cases hsized with
    | fault fault => exact ⟨.error fault, .fault hvalue⟩

/-- A whole number beyond the doubles does not settle even by itself. -/
theorem not_settles_of_reach {name : String} (hf : f.tree = .column name) {n : Int}
    (hcell : fields.cell name = .number (.whole n)) (hn : Real.reach ≤ n.natAbs)
    (o : Except Fault Float) : ¬ f.Settles fields o := by
  have hvalue : f.value fields = .error (.conversion .overflow) := by
    rw [value, hf, Tree.value]
    exact columnValue_of_error (hcell ▸ Cell.strictNumber_of_reach hn)
  rintro (⟨hok, -⟩ | hfault)
  · rw [hvalue] at hok
    cases hok
  · rw [hvalue] at hfault
    cases hfault

/-! ### Batches -/

/-- The messages on the rows that settle to a fault, from row `row` on. -/
def messagesFrom (row : Nat) : List (Except Fault Float) → List String
  | [] => []
  | .ok _ :: os => messagesFrom (row + 1) os
  | .error fault :: os => RowFault.message ⟨row, fault⟩ :: messagesFrom (row + 1) os

variable {rows : List Fields}

theorem outcome_eq_ok_iff {o : Except Fault Number} :
    f.outcome fields = .ok o ↔
      (∃ n, f.value fields = .ok n ∧ o = .ok n) ∨
        ∃ fault, f.value fields = .error (.evaluation fault) ∧ o = .error fault := by
  constructor
  · intro h
    unfold outcome at h
    split at h
    · next n hn =>
      cases h
      exact .inl ⟨n, hn, rfl⟩
    · next fault hfault =>
      cases h
      exact .inr ⟨fault, hfault, rfl⟩
    · cases h
  · rintro (⟨n, hn, rfl⟩ | ⟨fault, hfault, rfl⟩)
    · rw [outcome, hn]
    · rw [outcome, hfault]

theorem realOutcome_ok_iff {n : Number} {v : Option Float} :
    realOutcome (.ok n) = .ok v ↔ ∃ x, n.toReal? = some x ∧ v = some x := by
  rw [realOutcome]
  cases n.toReal? with
  | none => exact ⟨nofun, nofun⟩
  | some x => exact ⟨fun h => ⟨x, rfl, (Except.ok.inj h).symm⟩, fun ⟨y, hy, hv⟩ => by rw [hv, hy]⟩

theorem exists_settles_of_outcomes {outcomes : List (Except Fault Number)}
    {values : List (Option Float)}
    (houtcomes : List.Forall₂ (fun fields o => f.outcome fields = .ok o) rows outcomes)
    (hvalues : List.Forall₂ (fun o v => realOutcome o = .ok v) outcomes values) :
    ∃ os, List.Forall₂ f.Settles rows os ∧ values = os.map Except.toOption ∧
      ∀ row, (faultsFrom row outcomes).map RowFault.message = messagesFrom row os := by
  induction houtcomes generalizing values with
  | nil =>
    cases hvalues
    exact ⟨[], .nil, rfl, fun _ => rfl⟩
  | cons houtcome _ ih =>
    rcases hvalues with _ | ⟨hvalue, hvalues⟩
    -- the messages are compared from every row on, for the later rows start one further
    obtain ⟨os, hsettles, rfl, hmessages⟩ := ih hvalues
    rcases outcome_eq_ok_iff.1 houtcome with ⟨n, hn, rfl⟩ | ⟨fault, hfault, rfl⟩
    · obtain ⟨x, hx, rfl⟩ := realOutcome_ok_iff.1 hvalue
      exact ⟨.ok x :: os, .cons (.value hn hx) hsettles, rfl, fun row => hmessages (row + 1)⟩
    · cases hvalue
      refine ⟨.error fault :: os, .cons (.fault hfault) hsettles, rfl, fun row => ?_⟩
      exact congrArg _ (hmessages (row + 1))

theorem exists_outcomes_of_settles {os : List (Except Fault Float)}
    (h : List.Forall₂ f.Settles rows os) :
    ∃ outcomes, List.Forall₂ (fun fields o => f.outcome fields = .ok o) rows outcomes ∧
      List.Forall₂ (fun o v => realOutcome o = .ok v) outcomes (os.map Except.toOption) ∧
      ∀ row, (faultsFrom row outcomes).map RowFault.message = messagesFrom row os := by
  induction h with
  | nil => exact ⟨[], .nil, .nil, fun _ => rfl⟩
  | cons hsettles _ ih =>
    obtain ⟨outcomes, houtcomes, hvalues, hmessages⟩ := ih
    rcases hsettles with ⟨hn, hx⟩ | hfault
    · exact ⟨.ok _ :: outcomes, .cons (outcome_eq_ok_iff.2 (.inl ⟨_, hn, rfl⟩)) houtcomes,
        .cons (realOutcome_ok_iff.2 ⟨_, hx, rfl⟩) hvalues, fun row => hmessages (row + 1)⟩
    · refine ⟨.error _ :: outcomes,
        .cons (outcome_eq_ok_iff.2 (.inr ⟨_, hfault, rfl⟩)) houtcomes, .cons rfl hvalues,
        fun row => ?_⟩
      exact congrArg _ (hmessages (row + 1))

/-- A batch has a result exactly when its rows settle, and what they settle to is
the result. -/
theorem execute_eq_ok_iff {b : Batch} :
    f.execute rows = .ok b ↔
      ∃ os, List.Forall₂ f.Settles rows os ∧ b = ⟨os.map Except.toOption, messagesFrom 0 os⟩ := by
  constructor
  · intro h
    obtain ⟨outcomes, houtcomes, h⟩ := Outcome.bind_eq_ok.1 h
    obtain ⟨values, hvalues, h⟩ := Outcome.bind_eq_ok.1 h
    obtain ⟨os, hsettles, rfl, hmessages⟩ := exists_settles_of_outcomes
      (Outcome.mapM_eq_ok.1 houtcomes) (Outcome.mapM_eq_ok.1 hvalues)
    cases h
    exact ⟨os, hsettles, congrArg _ (hmessages 0)⟩
  · rintro ⟨os, hsettles, rfl⟩
    obtain ⟨outcomes, houtcomes, hvalues, hmessages⟩ := exists_outcomes_of_settles hsettles
    refine Outcome.bind_eq_ok.2 ⟨outcomes, Outcome.mapM_eq_ok.2 houtcomes, ?_⟩
    refine Outcome.bind_eq_ok.2 ⟨_, Outcome.mapM_eq_ok.2 hvalues, ?_⟩
    rw [hmessages 0]
    rfl

theorem exists_execute (h : ∀ fields ∈ rows, ∃ o, f.Settles fields o) :
    ∃ b, f.execute rows = .ok b := by
  suffices hos : ∃ os, List.Forall₂ f.Settles rows os by
    obtain ⟨os, hos⟩ := hos
    exact ⟨_, execute_eq_ok_iff.2 ⟨os, hos, rfl⟩⟩
  induction rows with
  | nil => exact ⟨[], .nil⟩
  | cons fields rows ih =>
    obtain ⟨o, ho⟩ := h fields List.mem_cons_self
    obtain ⟨os, hos⟩ := ih fun fields hfields => h fields (List.mem_cons_of_mem _ hfields)
    exact ⟨o :: os, .cons ho hos⟩

/-- Every row of a batch with a result settles. -/
theorem settles_of_execute {b : Batch} (h : f.execute rows = .ok b) :
    ∀ fields ∈ rows, ∃ o, f.Settles fields o := by
  obtain ⟨os, hos, -⟩ := execute_eq_ok_iff.1 h
  clear h
  induction hos with
  | nil => exact fun fields hfields => absurd hfields List.not_mem_nil
  | cons ho _ ih => exact List.forall_mem_cons.2 ⟨⟨_, ho⟩, ih⟩

/-- A batch is what its rows settle to, one value and at most one message for each;
it has a result if no part of the formula reaches the end of the doubles, and none
if it asks for a whole number beyond them. -/
theorem batch_settles (f : Formula) (rows : List Fields) :
    (∀ b, f.execute rows = .ok b ↔
      ∃ os, List.Forall₂ f.Settles rows os ∧ b = ⟨os.map Except.toOption, messagesFrom 0 os⟩) ∧
    (∀ bound, f.tree.Fits bound →
      (∀ fields ∈ rows, ∀ name ∈ f.tree.names, (fields.cell name).Bounded bound) →
      ∃ b, f.execute rows = .ok b) ∧
    (∀ name, f.tree = .column name → ∀ fields ∈ rows, ∀ n,
      fields.cell name = .number (.whole n) → Real.reach ≤ n.natAbs →
      ¬ ∃ b, f.execute rows = .ok b) := by
  refine ⟨fun b => execute_eq_ok_iff, fun bound hfits hcells => ?_, ?_⟩
  · exact exists_execute fun fields hfields => exists_settles hfits (hcells fields hfields)
  · rintro name htree fields hfields n hcell hn ⟨b, hb⟩
    obtain ⟨o, ho⟩ := settles_of_execute hb fields hfields
    exact not_settles_of_reach htree hcell hn o ho

/-- Products of whole numbers of a hundred digits are within the doubles, and a
text beside them is the fault of its own row. -/
theorem batch_settles_products :
    let f : Formula := ⟨"a * b", .binary .times (.column "a") (.column "b"), ["a", "b"]⟩
    let large : Cell := .number (.whole (tenTo 100))
    f.tree.Fits (tenTo 100) ∧
      ∃ b, f.execute [[("a", large), ("b", large)], [("a", .text "x"), ("b", large)]] = .ok b := by
  intro f large
  have hreach : tenTo 100 < Real.reach := by decide +kernel
  have hproduct : tenTo 100 * tenTo 100 < Real.reach := by decide +kernel
  have hfits : f.tree.Fits (tenTo 100) := ⟨hreach, hreach, hproduct⟩
  refine ⟨hfits, (batch_settles f _).2.1 (tenTo 100) hfits ?_⟩
  have hlarge : large.Bounded (tenTo 100) := Nat.le_of_eq (Int.natAbs_natCast _)
  refine List.forall_mem_cons.2 ⟨?_, List.forall_mem_singleton.2 ?_⟩
  · exact List.forall_mem_cons.2 ⟨hlarge, List.forall_mem_singleton.2 hlarge⟩
  · exact List.forall_mem_cons.2 ⟨rfl, List.forall_mem_singleton.2 hlarge⟩

/-- A name by itself is a formula. -/
theorem parse_name {cs : List Char} (h : (Token.name cs).WellFormed) :
    parse (String.ofList cs) =
      .ok ⟨String.ofList cs, .column (String.ofList cs), [String.ofList cs]⟩ := by
  -- a cut ends its tokens with what follows them, here with nothing
  have hcut : Cut ((Token.name cs).text ++ []) [.name cs] :=
    .token (by rw [List.append_nil]; exact (next?_eq_some_iff.1 (next?_text h)).1) .nil
  rw [List.append_nil] at hcut
  refine parse_eq_ok_iff.2 ⟨rfl, rfl, [.name cs], ?_, .term (.unary (.primary (.name cs)))⟩
  rw [String.toList_ofList]
  exact hcut

/-- One row with a whole number beyond the doubles aborts a batch whose other row
has a value. -/
theorem large_whole_aborts :
    let large : Cell := .number (.whole (tenTo 400))
    ∃ f, parse "a" = .ok f ∧ (∃ b, f.execute [[("a", .number (.whole 1))]] = .ok b) ∧
      ¬ ∃ b, f.execute [[("a", large)], [("a", .number (.whole 1))]] = .ok b := by
  intro large
  have hreach : Real.reach ≤ (tenTo 400 : Int).natAbs := by decide +kernel
  have hname : (Token.name ['a']).WellFormed := ⟨'a', [], rfl, by decide, nofun⟩
  refine ⟨⟨"a", .column "a", ["a"]⟩, parse_name hname, ?_, ?_⟩
  · have hbounded : (Cell.number (.whole 1)).Bounded 1 := Nat.le_refl 1
    have hfits : (Tree.column "a").Fits 1 := show 1 < Real.reach by decide +kernel
    exact exists_execute (List.forall_mem_singleton.2
      (exists_settles hfits (List.forall_mem_singleton.2 hbounded)))
  · rintro ⟨b, hb⟩
    obtain ⟨o, ho⟩ := settles_of_execute hb _ List.mem_cons_self
    exact not_settles_of_reach rfl rfl hreach o ho

end Formula

end Gridbook
