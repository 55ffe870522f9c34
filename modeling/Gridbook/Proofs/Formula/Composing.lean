/-
Gridbook/Proofs/Formula/Composing.lean

Batches in parts.  A row's value does not depend on the rows beside it, so a batch
of two lists of rows is made of the batches of both; only the numbers of the rows
in the messages of the second one are higher.  In the same way the first values of
a batch, with the messages on their rows, are the batch of the first rows.

`Formula.faults` lists the faults of the rows with their places.  It is a function
of the formula and the rows, whether or not the batch has a result, and composes by
itself (`faults_append`, `faults_take`).

Main statement: `batches_compose`.  A batch has a message exactly for each row
without a value, two batches compose, and a preview shows the first rows of the
whole batch.
-/
import Gridbook.Formula.Check
import Gridbook.Proofs.Formula.Checking

namespace Gridbook.Formula

/-! ### Faults with their places -/

/-- The same fault with `n` more rows before its row. -/
def RowFault.shift (n : Nat) (r : RowFault) : RowFault :=
  { r with row := n + r.row }

/-- The fault of a row, if that is why it has no value. -/
def ownFault (f : Formula) (fields : Fields) : Option Fault :=
  match f.value fields with
  | .error (.evaluation fault) => some fault
  | _ => none

/-- The faults of the rows, in the order of the rows. -/
def faults (f : Formula) (rows : List Fields) : List RowFault :=
  rows.zipIdx.filterMap fun (fields, row) => (f.ownFault fields).map (RowFault.mk row)

variable {f : Formula} {fields : Fields} {rows rows₁ rows₂ : List Fields}

theorem ownFault_eq_some_iff {fault : Fault} :
    f.ownFault fields = some fault ↔ f.value fields = .error (.evaluation fault) := by
  unfold ownFault
  split
  · next fault' hfault =>
    rw [hfault]
    simp
  · next hother =>
    exact ⟨nofun, fun h => absurd h (hother fault)⟩

theorem mem_faults {r : RowFault} :
    r ∈ f.faults rows ↔
      ∃ fields, rows[r.row]? = some fields ∧ f.ownFault fields = some r.fault := by
  rw [faults, List.mem_filterMap]
  constructor
  · rintro ⟨⟨fields, row⟩, hmem, h⟩
    obtain ⟨fault, hfault, rfl⟩ := Option.map_eq_some_iff.1 h
    exact ⟨fields, List.mk_mem_zipIdx_iff_getElem?.1 hmem, hfault⟩
  · rintro ⟨fields, hrow, hfault⟩
    exact ⟨(fields, r.row), List.mk_mem_zipIdx_iff_getElem?.2 hrow, by simp [hfault]⟩

theorem row_lt_of_mem_faults {r : RowFault} (h : r ∈ f.faults rows) : r.row < rows.length := by
  obtain ⟨fields, hrow, -⟩ := mem_faults.1 h
  exact (List.getElem?_eq_some_iff.1 hrow).1

/-- Each row has one fault at most, and comes after those before it. -/
theorem faults_ascending : (f.faults rows).Pairwise fun r r' => r.row < r'.row := by
  have hplaces : rows.zipIdx.Pairwise fun a b => a.2 < b.2 := by
    rw [← List.pairwise_map, List.zipIdx_map_snd]
    exact List.pairwise_lt_range'
  refine hplaces.filterMap _ ?_
  rintro ⟨fields, row⟩ ⟨fields', row'⟩ hlt r hr r' hr'
  obtain ⟨fault, -, rfl⟩ := Option.map_eq_some_iff.1 hr
  obtain ⟨fault', -, rfl⟩ := Option.map_eq_some_iff.1 hr'
  exact hlt

theorem faults_append :
    f.faults (rows₁ ++ rows₂) =
      f.faults rows₁ ++ (f.faults rows₂).map (RowFault.shift rows₁.length) := by
  unfold faults
  rw [List.zipIdx_append, List.filterMap_append, Nat.zero_add,
    List.zipIdx_eq_map_add (i := rows₁.length), List.filterMap_map, List.map_filterMap]
  congr 2
  funext ⟨fields, row⟩
  simp only [Function.comp, Option.map_map]
  rfl

theorem faults_take (k : Nat) :
    f.faults (rows.take k) = (f.faults rows).filter (·.row < k) := by
  conv => rhs; rw [← List.take_append_drop k rows, faults_append, List.filter_append]
  have hbefore : ∀ r ∈ f.faults (rows.take k), r.row < k := fun r hr =>
    Nat.lt_of_lt_of_le (row_lt_of_mem_faults hr) (List.length_take_le k rows)
  have hbehind : ∀ r ∈ (f.faults (rows.drop k)).map (RowFault.shift (rows.take k).length),
      ¬ r.row < k := by
    intro r hr
    obtain ⟨r', hr', rfl⟩ := List.mem_map.1 hr
    -- a row behind the first `k` leaves them all in the list before it
    have hlt := row_lt_of_mem_faults hr'
    rw [List.length_drop] at hlt
    simp only [RowFault.shift, List.length_take]
    omega
  rw [List.filter_eq_self.2 (by simpa using hbefore),
    List.filter_eq_nil_iff.2 (by simpa using hbehind), List.append_nil]

/-! ### Batches -/

/-- The faults of the rows are those of the faults that they settle to. -/
theorem messagesFrom_of_settles {os : List (Except Fault Float)}
    (h : List.Forall₂ f.Settles rows os) (row : Nat) :
    messagesFrom row os = ((f.faults rows).map (RowFault.shift row)).map RowFault.message := by
  induction h generalizing row with
  | nil => rfl
  | @cons fields o rows os ho _ ih =>
    have hsplit : f.faults ([fields] ++ rows) =
        f.faults [fields] ++ (f.faults rows).map (RowFault.shift 1) := faults_append
    have hshift : RowFault.shift row ∘ RowFault.shift 1 = RowFault.shift (row + 1) := by
      funext r
      simp [RowFault.shift, Nat.add_assoc]
    have hlater : (((f.faults rows).map (RowFault.shift 1)).map (RowFault.shift row)).map
        RowFault.message = messagesFrom (row + 1) os := by
      rw [ih (row + 1), List.map_map (g := RowFault.shift row), hshift]
    show _ = ((f.faults ([fields] ++ rows)).map (RowFault.shift row)).map RowFault.message
    rw [hsplit, List.map_append, List.map_append, hlater]
    rcases ho with ⟨hn, -⟩ | @⟨fault, hfault⟩
    · have hnone : f.faults [fields] = [] := by simp [faults, ownFault, hn]
      rw [hnone]
      rfl
    · have hone : f.faults [fields] = [⟨0, fault⟩] := by simp [faults, ownFault, hfault]
      rw [hone]
      rfl

theorem execute_of_settles {os : List (Except Fault Float)} (h : List.Forall₂ f.Settles rows os) :
    f.execute rows =
      .ok ⟨os.map Except.toOption, (f.faults rows).map RowFault.message⟩ := by
  have hmessages := messagesFrom_of_settles h 0
  have hshift : RowFault.shift 0 = id := by
    funext r
    simp [RowFault.shift]
  rw [hshift, List.map_id] at hmessages
  exact execute_eq_ok_iff.2 ⟨os, h, by rw [hmessages]⟩

theorem exists_settles_of_execute {b : Batch} (h : f.execute rows = .ok b) :
    ∃ os, List.Forall₂ f.Settles rows os ∧
      b = ⟨os.map Except.toOption, (f.faults rows).map RowFault.message⟩ := by
  obtain ⟨os, hos, -⟩ := execute_eq_ok_iff.1 h
  exact ⟨os, hos, Except.ok.inj (h.symm.trans (execute_of_settles hos))⟩

theorem Settles.toOption_eq_none_iff {o : Except Fault Float} (h : f.Settles fields o) :
    o.toOption = none ↔ ∃ fault, f.ownFault fields = some fault := by
  simp only [ownFault_eq_some_iff]
  rcases h with ⟨hn, -⟩ | hfault
  · rw [hn]
    exact ⟨nofun, nofun⟩
  · exact ⟨fun _ => ⟨_, hfault⟩, fun _ => rfl⟩

/-- A row has no value exactly when a fault is listed for it. -/
theorem getElem?_eq_none_iff_faults {os : List (Except Fault Float)}
    (h : List.Forall₂ f.Settles rows os) (row : Nat) :
    (os.map Except.toOption)[row]? = some none ↔ ∃ r ∈ f.faults rows, r.row = row := by
  rw [List.getElem?_map, Option.map_eq_some_iff]
  constructor
  · rintro ⟨o, ho, hnone⟩
    obtain ⟨hlt, rfl⟩ := List.getElem?_eq_some_iff.1 ho
    have hlt' : row < rows.length := h.length_eq ▸ hlt
    obtain ⟨fault, hfault⟩ := (h.get hlt' hlt).toOption_eq_none_iff.1 hnone
    exact ⟨⟨row, fault⟩, mem_faults.2 ⟨_, List.getElem?_eq_getElem hlt', hfault⟩, rfl⟩
  · rintro ⟨r, hr, rfl⟩
    obtain ⟨fields, hrow, hfault⟩ := mem_faults.1 hr
    obtain ⟨hlt, rfl⟩ := List.getElem?_eq_some_iff.1 hrow
    have hlt' : r.row < os.length := h.length_eq ▸ hlt
    exact ⟨_, List.getElem?_eq_getElem hlt',
      (h.get hlt hlt').toOption_eq_none_iff.2 ⟨r.fault, hfault⟩⟩

/-- A result has a value or none for each row, and a message for each row without. -/
theorem batch_faults {b : Batch} (h : f.execute rows = .ok b) :
    b.values.length = rows.length ∧ b.errors = (f.faults rows).map RowFault.message ∧
      ∀ row, b.values[row]? = some none ↔ ∃ r ∈ f.faults rows, r.row = row := by
  obtain ⟨os, hos, rfl⟩ := exists_settles_of_execute h
  refine ⟨?_, rfl, getElem?_eq_none_iff_faults hos⟩
  rw [List.length_map, hos.length_eq]

theorem execute_append {b₁ b₂ : Batch} (h₁ : f.execute rows₁ = .ok b₁)
    (h₂ : f.execute rows₂ = .ok b₂) :
    f.execute (rows₁ ++ rows₂) = .ok ⟨b₁.values ++ b₂.values,
      b₁.errors ++ ((f.faults rows₂).map (RowFault.shift rows₁.length)).map RowFault.message⟩ := by
  obtain ⟨os₁, hos₁, rfl⟩ := exists_settles_of_execute h₁
  obtain ⟨os₂, hos₂, rfl⟩ := exists_settles_of_execute h₂
  rw [execute_of_settles (List.rel_append hos₁ hos₂), faults_append, List.map_append,
    List.map_append]

/-- The first rows of a batch by themselves. -/
theorem execute_take {b : Batch} (h : f.execute rows = .ok b) (k : Nat) :
    f.execute (rows.take k) = .ok ⟨b.values.take k,
      ((f.faults rows).filter (·.row < k)).map RowFault.message⟩ := by
  obtain ⟨os, hos, rfl⟩ := exists_settles_of_execute h
  rw [execute_of_settles (List.forall₂_take k hos), faults_take, List.map_take]

/-! ### Previews -/

variable {s : String} {known : List String}

theorem preview_of_invalid {v : Verdict} (hv : checkText s known = .ok v)
    (hinvalid : v.isValid = false) (limit : Option Int) (columnName : String) :
    preview s rows known limit columnName = .ok ⟨columnName, s, [], v.errors⟩ := by
  rw [preview, hv]
  show (if v.isValid then _ else _) = _
  rw [hinvalid]
  rfl

theorem preview_of_valid {v : Verdict} (hv : checkText s known = .ok v) (hvalid : v.isValid)
    (hf : parse s = .ok f) (limit : Option Int) (columnName : String) :
    preview s rows known limit columnName =
      (f.execute (upTo limit rows)).map fun b => ⟨columnName, s, b.values, b.errors⟩ := by
  rw [preview, hv, hf]
  show (if v.isValid then _ else _) = _
  rw [if_pos hvalid]
  rfl

/-- The values of a batch and its messages are those of its rows, by whatever parts it
is executed.  A result has a message exactly for each row without a value, in the
order of the rows; two lists of rows that have results have their results one after
the other, with the second one's messages on rows as many further; and a preview of
a text that is fit gives the values and the messages that all rows give for the
first ones, one of a text that is not gives the check's errors. -/
theorem batches_compose :
    (∀ (f : Formula) rows b, f.execute rows = .ok b →
      b.values.length = rows.length ∧ b.errors = (f.faults rows).map RowFault.message ∧
        ((f.faults rows).Pairwise fun r r' => r.row < r'.row) ∧
        ∀ row, b.values[row]? = some none ↔ ∃ r ∈ f.faults rows, r.row = row) ∧
    (∀ (f : Formula) rows₁ rows₂ b₁ b₂, f.execute rows₁ = .ok b₁ → f.execute rows₂ = .ok b₂ →
      f.execute (rows₁ ++ rows₂) = .ok ⟨b₁.values ++ b₂.values, b₁.errors ++
        ((f.faults rows₂).map (RowFault.shift rows₁.length)).map RowFault.message⟩) ∧
    ∀ s rows known limit columnName, ∃ v, checkText s known = .ok v ∧
      (v.isValid = false →
        preview s rows known limit columnName = .ok ⟨columnName, s, [], v.errors⟩) ∧
      (v.isValid → ∃ f, parse s = .ok f ∧
        preview s rows known limit columnName =
          (f.execute (upTo limit rows)).map (fun b => ⟨columnName, s, b.values, b.errors⟩) ∧
        ∀ b, f.execute rows = .ok b →
          preview s rows known limit columnName = .ok ⟨columnName, s,
            b.values.take (upTo limit rows).length,
            ((f.faults rows).filter (·.row < (upTo limit rows).length)).map RowFault.message⟩) := by
  refine ⟨fun f rows b hb => ?_, fun f rows₁ rows₂ b₁ b₂ => execute_append, ?_⟩
  · obtain ⟨hlength, herrors, hmissing⟩ := batch_faults hb
    exact ⟨hlength, herrors, faults_ascending, hmissing⟩
  · intro s rows known limit columnName
    obtain ⟨v, hv, -, hvalid⟩ := checkText_sound s known
    refine ⟨v, hv, fun h => preview_of_invalid hv h limit columnName, fun h => ?_⟩
    obtain ⟨f, hf, -⟩ := hvalid h
    have hpreview : preview s rows known limit columnName = _ :=
      preview_of_valid hv h hf limit columnName
    refine ⟨f, hf, hpreview, fun b hb => ?_⟩
    have hfirst : upTo limit rows = rows.take (upTo limit rows).length :=
      List.prefix_iff_eq_take.1 (upTo_isPrefix limit rows)
    rw [hpreview, hfirst, execute_take hb, ← hfirst]
    rfl

/-- Two rows, then one more, and a preview of all but the last. -/
theorem batches_compose_three :
    let f : Formula := ⟨"a", .column "a", ["a"]⟩
    let rows₁ : List Fields := [[("a", .number (.whole 1))], [("a", .text "x")]]
    let rows₂ : List Fields := [[("a", .null)]]
    (∃ b₁ b₂, f.execute rows₁ = .ok b₁ ∧ f.execute rows₂ = .ok b₂ ∧
      b₁.errors = ["Row 2: Column 'a' is not numeric ('x')"] ∧
      f.execute (rows₁ ++ rows₂) =
        .ok ⟨b₁.values ++ b₂.values, b₁.errors ++ ["Row 3: Column 'a' is missing"]⟩) ∧
    ∃ b, f.execute (rows₁ ++ rows₂) = .ok b ∧
      preview "a" (rows₁ ++ rows₂) ["a"] (some (-1)) "n" =
        .ok ⟨"n", "a", b.values.take 2, ["Row 2: Column 'a' is not numeric ('x')"]⟩ := by
  intro f rows₁ rows₂
  obtain ⟨hfaults, hcompose, hpreview⟩ := batches_compose
  have hfits : f.tree.Fits 1 := show 1 < Real.reach by decide +kernel
  have hbounded : ∀ rows : List Fields, (∀ fields ∈ rows, (fields.cell "a").Bounded 1) →
      ∃ b, f.execute rows = .ok b := fun rows hrows =>
    exists_execute fun fields hfields =>
      exists_settles hfits (List.forall_mem_singleton.2 (hrows fields hfields))
  obtain ⟨b₁, hb₁⟩ := hbounded rows₁ (List.forall_mem_cons.2 ⟨Nat.le_refl 1, by simp; rfl⟩)
  obtain ⟨b₂, hb₂⟩ := hbounded rows₂ (List.forall_mem_singleton.2 rfl)
  have hthird : ((f.faults rows₂).map (RowFault.shift 2)).map RowFault.message =
      ["Row 3: Column 'a' is missing"] := by decide +kernel
  have hboth := hcompose f rows₁ rows₂ b₁ b₂ hb₁ hb₂
  refine ⟨⟨b₁, b₂, hb₁, hb₂, ?_, hthird ▸ hboth⟩, _, hboth, ?_⟩
  · rw [(hfaults f rows₁ b₁ hb₁).2.1]
    decide +kernel
  · obtain ⟨v, hv, -, hvalid⟩ := hpreview "a" (rows₁ ++ rows₂) ["a"] (some (-1)) "n"
    have hjudged : (checkText "a" ["a"]).toOption.map Verdict.isValid = some true := by
      decide +kernel
    rw [hv] at hjudged
    obtain ⟨f', hf', -, hfirst⟩ := hvalid (Option.some.inj hjudged)
    have hname : (Token.name ['a']).WellFormed := ⟨'a', [], rfl, by decide, nofun⟩
    cases hf'.symm.trans (parse_name hname)
    have hsecond : ((f.faults (rows₁ ++ rows₂)).filter (·.row < 2)).map RowFault.message =
        ["Row 2: Column 'a' is not numeric ('x')"] := by decide +kernel
    exact hsecond ▸ hfirst _ hboth

end Gridbook.Formula
