/-
Gridbook/Proofs/Formula/Depending.lean

What a formula depends on.  The parser turns each name among the tokens into a column
of the tree, and makes no other columns (`names_of_derives`); and what it has noted on
its way are the columns of the tree (`mem_columns_iff`).  So the columns of a formula can
be read off its text.  An evaluation looks at a row in these columns only
(`Tree.value_congr`), and it does look at each of them.

Main statement: `value_depends`, for every text that is a formula.
-/
import Gridbook.Proofs.Formula.Checking
import Gridbook.Record

namespace Gridbook.Formula

/-! ### Names in tokens and in trees -/

/-- The name that a token is, if it is one. -/
def Token.name? : Token → Option String
  | name cs => some (String.ofList cs)
  | _ => none

/-- The tree has a column of this name. -/
inductive Tree.Mentions (name : String) : Tree → Prop
  | column : Mentions name (.column name)
  | negate {t : Tree} : Mentions name t → Mentions name (.negate t)
  | left {op : Operator} {l r : Tree} : Mentions name l → Mentions name (.binary op l r)
  | right {op : Operator} {l r : Tree} : Mentions name r → Mentions name (.binary op l r)

theorem Tree.mem_names_iff {name : String} {t : Tree} : name ∈ t.names ↔ t.Mentions name := by
  induction t with
  | literal x => exact ⟨nofun, nofun⟩
  | column other =>
    rw [names, List.mem_singleton]
    constructor
    · rintro rfl
      exact .column
    · rintro ⟨⟩
      rfl
  | negate t ih =>
    refine ih.trans ⟨.negate, ?_⟩
    rintro (_ | h)
    exact h
  | binary op l r ihl ihr =>
    rw [names, List.mem_append, ihl, ihr]
    constructor
    · rintro (h | h)
      · exact .left h
      · exact .right h
    · rintro (_ | _ | h | h)
      · exact .inl h
      · exact .inr h

/-- The columns of a phrase's tree are its name tokens, from left to right. -/
theorem names_of_derives {p : Phrase} {ts : List Token} {t : Tree} (h : Derives p ts t) :
    t.names = ts.filterMap Token.name? := by
  induction h with
  | number l => rfl
  | name cs => rfl
  | group _ ih =>
    rw [List.filterMap_append, List.filterMap_cons, ih]
    exact (List.append_nil _).symm
  | primary _ ih => exact ih
  | unary _ ih => exact ih
  | term _ ih => exact ih
  | negate _ ih => exact ih
  | factor _ _ _ ihl ihr =>
    rw [Tree.names, List.filterMap_append, ihl, ihr]
    rfl
  | summand _ _ _ ihl ihr =>
    rw [Tree.names, List.filterMap_append, ihl, ihr]
    rfl

/-! ### Rows that agree -/

variable {a b fields : Fields} {t : Tree}

theorem columnValue_congr {name : String} (h : a.cell name = b.cell name) :
    columnValue a name = columnValue b name := by
  unfold columnValue
  rw [h]

/-- Rows that agree in the columns of a tree agree in what it comes to. -/
theorem Tree.value_congr (h : ∀ name ∈ t.names, a.cell name = b.cell name) :
    t.value a = t.value b := by
  induction t with
  | literal x => rfl
  | column name => exact columnValue_congr (h name List.mem_cons_self)
  | negate t ih => rw [value, value, ih h]
  | binary op l r ihl ihr =>
    obtain ⟨hl, hr⟩ := List.forall_mem_append.1 h
    rw [value, value, ihl hl, ihr hr]

/-- The columns of a formula are the columns of its tree and the name tokens of its
text.  Rows that agree in them, where an absent cell counts as null, have the same
value or the same error, be they records or not; and where one of them is null there
is no value. -/
theorem value_depends (s : String) (f : Formula) (h : parse s = .ok f) :
    f.columns.Pairwise (· < ·) ∧
    (∀ name, name ∈ f.columns ↔ f.tree.Mentions name) ∧
    (∃ ps, lex s = .ok ps ∧
      ∀ name, name ∈ f.columns ↔ ∃ p ∈ ps, p.token.name? = some name) ∧
    (∀ a b : Fields, (∀ name ∈ f.columns, a.cell name = b.cell name) →
      f.value a = f.value b) ∧
    (∀ (r : Record) (fields : Fields),
      (∀ name ∈ f.columns, r.get name .null = fields.cell name) →
        f.value r.fields = f.value fields) ∧
    (∀ name ∈ f.columns, ∀ fields : Fields, (fields.cell name).isNull →
      ¬ ∃ n, f.value fields = .ok n) := by
  have hcongr : ∀ a b : Fields, (∀ name ∈ f.columns, a.cell name = b.cell name) →
      f.value a = f.value b := fun a b hagree =>
    Tree.value_congr fun name hname => hagree name ((mem_columns_iff h).2 hname)
  obtain ⟨-, hcolumns, ts, hcut, hderives⟩ := parse_eq_ok_iff.1 h
  obtain ⟨ps, hlex, rfl⟩ := lexFrom_of_cut hcut 0
  refine ⟨hcolumns ▸ Text.pairwise_sortedDistinct _, fun name => ?_, ⟨ps, hlex, fun name => ?_⟩, hcongr,
    fun r fields hagree => hcongr r.fields fields hagree, ?_⟩
  · rw [mem_columns_iff h, Tree.mem_names_iff]
  · rw [mem_columns_iff h, names_of_derives hderives, List.mem_filterMap]
    constructor
    · rintro ⟨t, ht, hname⟩
      obtain ⟨p, hp, rfl⟩ := List.mem_map.1 ht
      exact ⟨p, hp, hname⟩
    · rintro ⟨p, hp, hname⟩
      exact ⟨p.token, List.mem_map_of_mem hp, hname⟩
  · rintro name hname fields hnull ⟨n, hn⟩
    obtain ⟨m, hm⟩ := Tree.columnValue_of_value hn name ((mem_columns_iff h).1 hname)
    rw [columnValue_eq_ok_iff, Cell.eq_null_of_isNull hnull] at hm
    cases hm

/-- A record with a column that the formula does not name, and a row with a null where
the record has nothing. -/
theorem value_depends_absent :
    let one : Cell := .number (.whole 1)
    let r : Record := ⟨1, 1, 1, 0, [("z", .text "x"), ("a", one)]⟩
    ∃ f, parse "a * b" = .ok f ∧ f.value r.fields = f.value [("a", one), ("b", .null)] ∧
      (∀ name, f.tree.Mentions name ↔ name ∈ ["a", "b"]) ∧ ¬ ∃ n, f.value r.fields = .ok n := by
  intro one r
  have hcolumns : ((parse "a * b").map columns).toOption = some ["a", "b"] := by decide +kernel
  obtain ⟨f, hf, hnames⟩ := Outcome.of_toOption_map hcolumns
  obtain ⟨-, hmentions, -, -, hrecord, hnull⟩ := value_depends "a * b" f hf
  rw [hnames] at hmentions hrecord hnull
  refine ⟨f, hf, hrecord r _ ?_, fun name => (hmentions name).symm, ?_⟩
  · exact List.forall_mem_cons.2 ⟨rfl, List.forall_mem_singleton.2 rfl⟩
  · exact hnull "b" (List.mem_cons_of_mem _ List.mem_cons_self) r.fields rfl

end Gridbook.Formula
