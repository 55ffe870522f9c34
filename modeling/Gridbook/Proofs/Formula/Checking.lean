/-
Gridbook/Proofs/Formula/Checking.lean

What the check of a formula promises about rows.  Evaluation skips no operand, so a
value has been made of all columns that the tree names (`columnValue_of_value`): a
formula with an unknown column has no value on a row of known ones.  Where all of
them hold numbers, only the operators are left to fail (`Calculated`).  A tree
without columns does not look at the row at all (`value_of_no_names`).

Main statement: `checkText_sound`, what follows from a check that is passed, and
from one that is not.
-/
import Gridbook.Formula.Check
import Gridbook.Proofs.Formula.Settling
import Gridbook.Proofs.Sorting

namespace Gridbook

/-- A row has a value only in columns of its own. -/
theorem Fields.mem_names_of_cell {fields : Fields} {name : String}
    (h : (fields.cell name).isNull = false) : name ∈ fields.names := by
  rw [cell] at h
  cases hlookup : fields.lookup name with
  | none =>
    rw [hlookup] at h
    cases h
  | some c =>
    obtain ⟨before, rest, rfl, -⟩ := List.lookup_eq_some_iff.1 hlookup
    exact List.mem_map.2 ⟨(name, c), List.mem_append_right before List.mem_cons_self, rfl⟩

namespace Formula

variable {fields : Fields} {known : List String} {f : Formula} {t : Tree} {name : String}

/-! ### Columns of a value -/

/-- A column has a value exactly where the row holds a plain number in it. -/
theorem columnValue_eq_ok_iff {n : Number} :
    columnValue fields name = .ok n ↔ (fields.cell name).strictNumber = .ok (some n) := by
  refine ⟨fun h => ?_, columnValue_of_some⟩
  unfold columnValue at h
  dsimp only at h
  split at h
  · cases h
  split at h
  · next m hm =>
    cases h
    exact hm
  · split at h <;> cases h
  · cases h

/-- A value has been made of all columns, for no operand is skipped. -/
theorem Tree.columnValue_of_value {n : Number} (h : t.value fields = .ok n) :
    ∀ name ∈ t.names, ∃ m, columnValue fields name = .ok m := by
  induction t generalizing n with
  | literal x => exact fun name hname => absurd hname List.not_mem_nil
  | column name => exact List.forall_mem_singleton.2 ⟨n, h⟩
  | negate t ih =>
    obtain ⟨m, hm, -⟩ := Outcome.bind_eq_ok.1 h
    exact ih hm
  | binary op l r ihl ihr =>
    obtain ⟨a, ha, h⟩ := Outcome.bind_eq_ok.1 h
    obtain ⟨b, hb, -⟩ := Outcome.bind_eq_ok.1 h
    exact List.forall_mem_append.2 ⟨ihl ha, ihr hb⟩

/-- Where there is a value, the row has all columns of the tree. -/
theorem Tree.mem_names_of_value {n : Number} (h : t.value fields = .ok n)
    (hname : name ∈ t.names) : name ∈ fields.names := by
  obtain ⟨m, hm⟩ := columnValue_of_value h name hname
  rw [columnValue_eq_ok_iff] at hm
  exact Fields.mem_names_of_cell (Cell.isNull_eq_false_of_strictNumber (hm ▸ nofun))

/-! ### Evaluation where the columns hold numbers -/

/-- An evaluation that ends with a number, with a division by zero, or beyond the
numbers at hand.  No column is at fault. -/
inductive Calculated : Except Error Number → Prop
  | value (n : Number) : Calculated (.ok n)
  | zeroDivision : Calculated (.error (.evaluation .zeroDivision))
  | overflow : Calculated (.error .overflow)

theorem Calculated.bind {x : Except Error Number} {g : Number → Except Error Number}
    (h : Calculated x) (hg : ∀ n, Calculated (g n)) : Calculated (x >>= g) := by
  cases h with
  | value n => exact hg n
  | zeroDivision => exact .zeroDivision
  | overflow => exact .overflow

theorem calculated_orOverflow (r : Option Number) :
    Calculated (match r with | some n => .ok n | none => .error .overflow) := by
  cases r with
  | none => exact .overflow
  | some n => exact .value n

theorem Operator.calculated_apply (op : Operator) (a b : Number) : Calculated (op.apply a b) := by
  cases op with
  | plus => exact calculated_orOverflow (a.add? b)
  | minus => exact calculated_orOverflow (a.sub? b)
  | times => exact calculated_orOverflow (a.mul? b)
  | divide =>
    unfold apply
    dsimp only
    split
    · exact .zeroDivision
    · exact calculated_orOverflow (a.div? b)

theorem Tree.calculated_value (h : ∀ name ∈ t.names, ∃ n, columnValue fields name = .ok n) :
    Calculated (t.value fields) := by
  induction t with
  | literal x => exact .value (.real x)
  | column name =>
    obtain ⟨n, hn⟩ := h name List.mem_cons_self
    rw [value, hn]
    exact .value n
  | negate t ih => exact (ih h).bind fun n => .value n.neg
  | binary op l r ihl ihr =>
    refine (ihl fun name hname => h name (List.mem_append_left _ hname)).bind fun a => ?_
    refine (ihr fun name hname => h name (List.mem_append_right _ hname)).bind fun b => ?_
    exact op.calculated_apply a b

/-! ### Trees without columns -/

/-- Doubles make a double, or a division by zero. -/
theorem Operator.apply_reals (op : Operator) (x y : Float) :
    (∃ z, op.apply (.real x) (.real y) = .ok (.real z)) ∨
      op.apply (.real x) (.real y) = .error (.evaluation .zeroDivision) := by
  cases op with
  | plus => exact .inl ⟨x + y, rfl⟩
  | minus => exact .inl ⟨x - y, rfl⟩
  | times => exact .inl ⟨x * y, rfl⟩
  | divide =>
    unfold apply
    dsimp only
    split
    · exact .inr rfl
    · exact .inl ⟨x / y, rfl⟩

/-- A tree without columns comes to the same on all rows: to a double, for literals
are doubles, or to a division by zero. -/
theorem Tree.value_of_no_names (h : t.names = []) :
    (∃ x, ∀ fields, t.value fields = .ok (.real x)) ∨
      ∀ fields, t.value fields = .error (.evaluation .zeroDivision) := by
  induction t with
  | literal x => exact .inl ⟨x, fun _ => rfl⟩
  | column name => cases h
  | negate t ih =>
    rcases ih h with ⟨x, hx⟩ | hzero
    · exact .inl ⟨-x, fun fields => by rw [value, hx]; rfl⟩
    · exact .inr fun fields => by rw [value, hzero]; rfl
  | binary op l r ihl ihr =>
    obtain ⟨hl, hr⟩ := List.append_eq_nil_iff.1 h
    rcases ihl hl with ⟨x, hx⟩ | hzero
    · rcases ihr hr with ⟨y, hy⟩ | hzero
      · have hvalue : ∀ fields, (binary op l r).value fields = op.apply (.real x) (.real y) :=
          fun fields => by rw [value, hx, hy]; rfl
        rcases op.apply_reals x y with ⟨z, hz⟩ | hzero
        · exact .inl ⟨z, fun fields => (hvalue fields).trans hz⟩
        · exact .inr fun fields => (hvalue fields).trans hzero
      · exact .inr fun fields => by rw [value, hx, hzero]; rfl
    · exact .inr fun fields => by rw [value, hzero]; rfl

theorem messagesFrom_of_values {x : Float} (rows : List Fields) (row : Nat) :
    messagesFrom row (rows.map fun _ => .ok x) = [] := by
  induction rows generalizing row with
  | nil => rfl
  | cons fields rows ih => exact ih (row + 1)

/-- One double on all rows is the whole of a batch. -/
theorem execute_of_value {x : Float} (h : ∀ fields, f.value fields = .ok (.real x))
    (rows : List Fields) : f.execute rows = .ok ⟨List.replicate rows.length (some x), []⟩ := by
  refine execute_eq_ok_iff.2 ⟨rows.map fun _ => .ok x, ?_, ?_⟩
  · refine List.forall₂_map_right_iff.2 (List.forall₂_same.2 fun fields _ => ?_)
    exact .value (h fields) rfl
  · rw [messagesFrom_of_values, List.map_map]
    exact congrArg (Batch.mk · []) List.map_const'.symm

/-! ### The check -/

theorem columns_eq_nil_iff {s : String} (h : parse s = .ok f) :
    f.columns = [] ↔ f.tree.names = [] := by
  simp only [List.eq_nil_iff_forall_not_mem, mem_columns_iff h]

theorem columnErrors_eq_nil_iff {s : String} (h : parse s = .ok f) :
    f.columnErrors known = [] ↔ ∀ name ∈ f.tree.names, name ∈ known := by
  rw [columnErrors, List.map_eq_nil_iff, List.filter_eq_nil_iff]
  simp only [mem_columns_iff h, decide_not, Bool.not_eq_true', decide_eq_false_iff_not, not_not]

/-- What a check finds out: of a formula with columns, whether all are known, and of
one without, whether it has a value. -/
theorem check_cases {s : String} (h : parse s = .ok f) (known : List String) :
    ∃ v, f.check known = .ok v ∧
      (f.tree.names ≠ [] ∧ (v.isValid ↔ ∀ name ∈ f.tree.names, name ∈ known) ∨
        f.tree.names = [] ∧
          (v.isValid ∧ (∃ x, ∀ fields, f.value fields = .ok (.real x)) ∨
            v.isValid = false ∧
              ∀ fields, f.value fields = .error (.evaluation .zeroDivision))) := by
  unfold check
  by_cases hnames : f.tree.names = []
  · rw [if_pos (List.isEmpty_iff.2 ((columns_eq_nil_iff h).2 hnames))]
    dsimp only
    rcases Tree.value_of_no_names hnames with ⟨x, hx⟩ | hzero
    · have houtcome : f.outcome [] = .ok (.ok (.real x)) :=
        outcome_eq_ok_iff.2 (.inl ⟨_, hx [], rfl⟩)
      rw [houtcome]
      exact ⟨_, rfl, .inr ⟨hnames, .inl ⟨rfl, x, hx⟩⟩⟩
    · have houtcome : f.outcome [] = .ok (.error .zeroDivision) :=
        outcome_eq_ok_iff.2 (.inr ⟨_, hzero [], rfl⟩)
      rw [houtcome]
      exact ⟨_, rfl, .inr ⟨hnames, .inr ⟨rfl, hzero⟩⟩⟩
  · have hcolumns : ¬ f.columns.isEmpty := fun hempty =>
      hnames ((columns_eq_nil_iff h).1 (List.isEmpty_iff.1 hempty))
    rw [if_neg hcolumns]
    refine ⟨_, rfl, .inl ⟨hnames, ?_⟩⟩
    rw [Verdict.isValid, List.isEmpty_iff, columnErrors_eq_nil_iff h]

/-- The check of a text always has a verdict.  A text that does not pass is no
formula, or has no value on any row that has known columns only.  One that passes is
a formula that fails on rows of numbers by its arithmetic alone; and if it has no
columns, it gives every row of a batch the same double. -/
theorem checkText_sound (s : String) (known : List String) :
    ∃ v, checkText s known = .ok v ∧
      (v.isValid = false → ∀ f, parse s = .ok f →
        ∀ fields : Fields, (∀ name ∈ fields.names, name ∈ known) → ¬ ∃ n, f.value fields = .ok n) ∧
      (v.isValid → ∃ f, parse s = .ok f ∧
        (∀ fields : Fields,
          (∀ name ∈ known, ∃ n, (fields.cell name).strictNumber = .ok (some n)) →
          (∃ n, f.value fields = .ok n) ∨ f.value fields = .error (.evaluation .zeroDivision) ∨
            f.value fields = .error .overflow) ∧
        (f.columns = [] → ∃ x, ∀ rows,
          f.execute rows = .ok ⟨List.replicate rows.length (some x), []⟩)) := by
  unfold checkText
  cases hparse : parse s with
  | error fault => exact ⟨_, rfl, nofun, nofun⟩
  | ok f =>
    obtain ⟨v, hcheck, hcases⟩ := check_cases hparse known
    refine ⟨v, hcheck, ?_, fun hvalid => ⟨f, rfl, ?_, fun hcolumns => ?_⟩⟩
    · rintro hinvalid _ ⟨⟩ fields hfields ⟨n, hn⟩
      rcases hcases with ⟨-, hiff⟩ | ⟨-, ⟨hvalid, -⟩ | ⟨-, hzero⟩⟩
      · refine absurd (hiff.2 fun name hname => ?_) (Bool.eq_false_iff.1 hinvalid)
        exact hfields name (Tree.mem_names_of_value hn hname)
      · exact absurd hvalid (Bool.eq_false_iff.1 hinvalid)
      · cases (hzero fields).symm.trans hn
    · intro fields hnumbers
      have hknown : ∀ name ∈ f.tree.names, name ∈ known := by
        rcases hcases with ⟨-, hiff⟩ | ⟨hnames, -⟩
        · exact hiff.1 hvalid
        · rw [hnames]
          nofun
      have hcalculated : Calculated (f.value fields) := Tree.calculated_value fun name hname => by
        obtain ⟨n, hn⟩ := hnumbers name (hknown name hname)
        exact ⟨n, columnValue_eq_ok_iff.2 hn⟩
      generalize f.value fields = x at hcalculated
      cases hcalculated with
      | value n => exact .inl ⟨n, rfl⟩
      | zeroDivision => exact .inr (.inl rfl)
      | overflow => exact .inr (.inr rfl)
    · rcases hcases with ⟨hnames, -⟩ | ⟨-, ⟨-, x, hx⟩ | ⟨hinvalid, -⟩⟩
      · exact absurd ((columns_eq_nil_iff hparse).1 hcolumns) hnames
      · exact ⟨x, execute_of_value hx⟩
      · exact absurd hvalid (Bool.eq_false_iff.1 hinvalid)

/-- A quotient of columns that are known, a product with one that is not, and a
constant on three rows. -/
theorem checkText_sound_quotient :
    let row : Fields := [("a", .number (.whole 1)), ("b", .number (.whole 0))]
    (∃ f, parse "a / b" = .ok f ∧ ((∃ n, f.value row = .ok n) ∨
      f.value row = .error (.evaluation .zeroDivision) ∨ f.value row = .error .overflow)) ∧
    (∃ f, parse "a * c" = .ok f ∧ ¬ ∃ n, f.value row = .ok n) ∧
    ∃ f x, parse "6 / 4" = .ok f ∧ f.execute [row, [], row] = .ok ⟨List.replicate 3 (some x), []⟩ := by
  intro row
  have hnumber : ∀ n : Int, n.natAbs ≤ 1 →
      (Cell.number (.whole n)).strictNumber = .ok (some (.whole n)) := fun n hn =>
    Cell.strictNumber_whole (Nat.lt_of_le_of_lt hn (by decide +kernel))
  have hjudged : ∀ {s known b v}, (checkText s known).toOption.map Verdict.isValid = some b →
      checkText s known = .ok v → v.isValid = b := by
    intro s known b v hb hv
    rw [hv] at hb
    exact Option.some.inj hb
  refine ⟨?_, ?_, ?_⟩
  · obtain ⟨v, hv, -, hvalid⟩ := checkText_sound "a / b" ["a", "b"]
    obtain ⟨f, hf, hrow, -⟩ := hvalid (hjudged (by decide +kernel) hv)
    refine ⟨f, hf, hrow row (List.forall_mem_cons.2 ⟨⟨_, hnumber 1 (by decide)⟩, ?_⟩)⟩
    exact List.forall_mem_singleton.2 ⟨_, hnumber 0 (by decide)⟩
  · obtain ⟨v, hv, hinvalid, -⟩ := checkText_sound "a * c" ["a", "b"]
    have hnot : v.isValid = false := hjudged (by decide +kernel) hv
    have hparse : (parse "a * c").isOk := by decide +kernel
    cases hf : parse "a * c" with
    | error fault =>
      rw [hf] at hparse
      cases hparse
    | ok f => exact ⟨f, rfl, hinvalid hnot f hf row fun name hname => hname⟩
  · obtain ⟨v, hv, -, hvalid⟩ := checkText_sound "6 / 4" []
    obtain ⟨f, hf, -, hrows⟩ := hvalid (hjudged (by decide +kernel) hv)
    have hcolumns : (parse "6 / 4").toOption.map Formula.columns = some [] := by decide +kernel
    rw [hf] at hcolumns
    obtain ⟨x, hx⟩ := hrows (Option.some.inj hcolumns)
    exact ⟨f, x, hf, hx _⟩

end Formula

end Gridbook
