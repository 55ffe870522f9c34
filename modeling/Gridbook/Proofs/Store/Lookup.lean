/-
Gridbook/Proofs/Store/Lookup.lean

Which field a column's path leads to.  A path holds the name of its column as it
is, between quotes, and the store compares what stands there with the escaped
names of a row.  So a name is looked up as itself when it is plain, that is, when
it is written alike in both places; and only then.

Main statement: a path leads to the field of its column, in every row, exactly
when the column's name is plain (`extract_iff_plain`).
-/
import Mathlib.Data.List.TakeWhile
import Gridbook.Proofs.Outcome
import Gridbook.Store.Native

namespace Gridbook

/-! ### Plain names -/

/-- Is the character printable ASCII, and neither a quote nor a backslash? -/
def Path.isPlainChar (c : Char) : Bool :=
  0x20 ≤ c.toNat && c.toNat ≤ 0x7E && c != '"' && c != '\\'

/-- Has the name such characters only? -/
def Path.isPlain (column : String) : Bool :=
  column.toList.all isPlainChar

namespace Json

theorem escapedChar_of_plain {c : Char} (h : Path.isPlainChar c) : escapedChar c = [c] := by
  simp only [Path.isPlainChar, Bool.and_eq_true, decide_eq_true_eq, bne_iff_ne] at h
  obtain ⟨⟨⟨hlow, hhigh⟩, hquote⟩, hback⟩ := h
  have hne : ∀ d : Char, d.toNat < 0x20 → c ≠ d := by
    rintro d hd rfl
    exact absurd hlow (Nat.not_le.2 hd)
  have h8 : c.toNat ≠ 8 := by omega
  have h12 : c.toNat ≠ 12 := by omega
  have hn := hne '\n' (by decide)
  have hr := hne '\r' (by decide)
  have ht := hne '\t' (by decide)
  unfold escapedChar
  rw [if_neg (not_or.2 ⟨hquote, hback⟩), if_neg hn, if_neg hr, if_neg ht, if_neg h8, if_neg h12]
  exact if_pos ⟨hlow, hhigh⟩

/-- Every other character is written as a backslash and more. -/
theorem escapedChar_of_not_plain {c : Char} (h : Path.isPlainChar c = false) :
    ∃ d ds, escapedChar c = '\\' :: d :: ds := by
  have hrange : ¬ (c = '"' ∨ c = '\\') → ¬ (0x20 ≤ c.toNat ∧ c.toNat ≤ 0x7E) := by
    intro hquote hin
    rw [not_or] at hquote
    simp [Path.isPlainChar, hquote, hin] at h
  have hunit : ∀ n rest, ∃ d ds, unitEscape n ++ rest = '\\' :: d :: ds :=
    fun n rest => ⟨'u', _, rfl⟩
  unfold escapedChar
  split
  · exact ⟨c, [], rfl⟩
  next hquote =>
  split
  · exact ⟨'n', [], rfl⟩
  split
  · exact ⟨'r', [], rfl⟩
  split
  · exact ⟨'t', [], rfl⟩
  split
  · exact ⟨'b', [], rfl⟩
  split
  · exact ⟨'f', [], rfl⟩
  rw [if_neg (hrange hquote)]
  split
  · exact ⟨'u', _, rfl⟩
  · exact hunit _ _

theorem escaped_of_plain {cs : List Char} (h : cs.all Path.isPlainChar) : escaped cs = cs := by
  induction cs with
  | nil => rfl
  | cons c cs ih =>
    rw [List.all_cons, Bool.and_eq_true] at h
    rw [escaped, List.flatMap_cons, escapedChar_of_plain h.1, List.singleton_append]
    exact congrArg (c :: ·) (ih h.2)

/-- No other text than itself has a plain text for its escaped form. -/
theorem eq_of_escaped_plain {cs : List Char} (h : (escaped cs).all Path.isPlainChar) :
    escaped cs = cs := by
  refine escaped_of_plain (List.all_eq_true.2 fun c hc => ?_)
  by_contra hplain
  obtain ⟨d, ds, hc'⟩ := escapedChar_of_not_plain (Bool.eq_false_iff.2 hplain)
  have hmem : '\\' ∈ escaped cs := List.mem_flatMap.2 ⟨c, hc, hc' ▸ List.mem_cons_self⟩
  exact absurd (List.all_eq_true.1 h _ hmem) (by decide)

theorem length_le_escaped (cs : List Char) : cs.length ≤ (escaped cs).length := by
  induction cs with
  | nil => exact Nat.le_refl 0
  | cons c cs ih =>
    have hpos : 1 ≤ (escapedChar c).length := by
      cases hc : Path.isPlainChar c with
      | true => rw [escapedChar_of_plain hc]; exact Nat.le_refl 1
      | false => obtain ⟨d, ds, he⟩ := escapedChar_of_not_plain hc; simp [he]
    rw [escaped, List.flatMap_cons, List.length_append, List.length_cons]
    rw [escaped] at ih
    omega

/-- A text that is not plain is longer in its escaped form. -/
theorem length_lt_escaped {cs : List Char} (h : ¬ cs.all Path.isPlainChar) :
    cs.length < (escaped cs).length := by
  induction cs with
  | nil => exact absurd rfl h
  | cons c cs ih =>
    rw [escaped, List.flatMap_cons, List.length_append, List.length_cons]
    have hrest := length_le_escaped cs
    rw [escaped] at hrest
    cases hc : Path.isPlainChar c with
    | true =>
      rw [escapedChar_of_plain hc, List.length_singleton]
      have := ih (by rw [List.all_cons, hc, Bool.true_and] at h; exact h)
      rw [escaped] at this
      omega
    | false =>
      obtain ⟨d, ds, he⟩ := escapedChar_of_not_plain hc
      rw [he, List.length_cons, List.length_cons]
      omega

end Json

/-! ### The steps of a column's path -/

namespace Path

/-- A path that starts with a key in quotes. -/
theorem steps_quoted (cs : List Char) :
    steps ('.' :: '"' :: cs) =
      match cs.dropWhile (· != '"') with
      | [] => [.brokenKey]
      | _ :: rest => .key (cs.takeWhile (· != '"')) :: steps rest := by
  rw [steps, nextStep, if_pos rfl, keyStep]
  cases cs.dropWhile (· != '"') with
  | nil => exact congrArg _ (by rw [steps])
  | cons c rest => rfl

theorem ofColumn_eq (column : String) :
    ofColumn column =
      steps ('.' :: '"' :: (column.toList ++ ['"']).takeWhile (· != '\x00')) := by
  have htext : (text column).toList = '$' :: '.' :: '"' :: (column.toList ++ ['"']) := by
    simp [text]
  rw [ofColumn, htext]
  rfl

theorem ofColumn_of_plain {column : String} (h : isPlain column) :
    ofColumn column = [.key column.toList] := by
  have hplain := List.all_eq_true.1 h
  have hnul : (column.toList ++ ['"']).takeWhile (· != '\x00') = column.toList ++ ['"'] := by
    refine List.takeWhile_eq_self_iff.2 fun c hc => bne_iff_ne.2 ?_
    rintro rfl
    rcases List.mem_append.1 hc with hc | hc
    · exact absurd (hplain _ hc) (by decide)
    · exact absurd (List.mem_singleton.1 hc) (by decide)
  have hquote : ∀ c ∈ column.toList, (c != '"') = true := by
    intro c hc
    rw [bne_iff_ne]
    rintro rfl
    exact absurd (hplain _ hc) (by decide)
  rw [ofColumn_eq, hnul, steps_quoted, List.dropWhile_append_of_pos hquote,
    List.takeWhile_append_of_pos hquote]
  simp [steps]

/-- Whatever the name, the path starts with a key that is not longer, or with a
broken one. -/
theorem ofColumn_cases (column : String) :
    ofColumn column = [.brokenKey] ∨
      ∃ key rest, ofColumn column = .key key :: rest ∧ key.length ≤ column.toList.length := by
  rw [ofColumn_eq, steps_quoted]
  split
  · exact .inl rfl
  · refine .inr ⟨_, _, rfl, ?_⟩
    -- the key has no quote, so it ends before the one that closes the path
    have hpre := ((List.takeWhile_prefix (l := (column.toList ++ ['"']).takeWhile (· != '\x00'))
      (· != '"')).trans (List.takeWhile_prefix _))
    rcases List.prefix_concat_iff.1 hpre with heq | hpre
    · have hquote := List.mem_takeWhile_imp (heq ▸ List.mem_append_right _ List.mem_cons_self)
      exact absurd hquote (by decide)
    · exact hpre.length_le

/-- A plain key leads to the member of that name. -/
theorem walk_key {column : String} (h : isPlain column) (fields : Fields) :
    walk (.object fields) [.key column.toList] = .ok (fields.lookup column) := by
  have hkey : ∀ name : String, Json.escaped name.toList = column.toList ↔ column = name := by
    intro name
    constructor
    · intro he
      rw [Json.eq_of_escaped_plain (he ▸ h)] at he
      exact String.toList_inj.1 he.symm
    · rintro rfl
      exact Json.escaped_of_plain h
  rw [walk]
  induction fields with
  | nil => rfl
  | cons m fields ih =>
    rw [List.find?_cons, Named.lookup_cons]
    by_cases hm : column = m.1
    · rw [if_pos hm, decide_eq_true ((hkey m.1).2 hm)]
      rfl
    · rw [if_neg hm, decide_eq_false (mt (hkey m.1).1 hm)]
      exact ih

end Path

/-! ### Looking up -/

namespace Native

/-- A plain name is looked up as itself. -/
theorem extract_of_plain [Reader] {column : String} (h : Path.isPlain column) {fields : Fields}
    (hfields : wellFormedMembers fields) :
    extract (Path.ofColumn column) fields = .ok (ofCell (fields.cell column)) := by
  rw [extract, if_pos hfields, Path.ofColumn_of_plain h, Path.walk_key h, Fields.cell]
  cases fields.lookup column with
  | none => rfl
  | some c => rfl

/-- A name that is not plain does not find itself in a row that has nothing
else. -/
theorem extract_of_not_plain [Reader] {column : String} (h : ¬ Path.isPlain column) (c : Cell)
    {v : Native} (hv : extract (Path.ofColumn column) [(column, c)] = .ok v) : v = .null := by
  rw [extract] at hv
  split at hv
  · obtain ⟨found, hfound, rfl⟩ := Outcome.map_eq_ok.1 hv
    rcases Path.ofColumn_cases column with hpath | ⟨key, rest, hpath, hlength⟩
    · rw [hpath] at hfound
      cases hfound
    · have hlonger := Json.length_lt_escaped h
      have hne : Json.escaped column.toList ≠ key := by
        rintro rfl
        omega
      rw [hpath, Path.walk, List.find?_cons, decide_eq_false hne] at hfound
      cases hfound
      rfl
  · cases hv

/-- A column's path leads to its field in every row that can be looked into, and
to null where there is none, exactly when the name is plain. -/
theorem extract_iff_plain [Reader] (column : String) :
    (∀ fields : Fields, wellFormedMembers fields →
      extract (Path.ofColumn column) fields = .ok (ofCell (fields.cell column))) ↔
    Path.isPlain column := by
  refine ⟨fun hall => ?_, fun h fields => extract_of_plain h⟩
  by_contra h
  have hself := extract_of_not_plain h (.bool true) (hall [(column, .bool true)] rfl)
  rw [Fields.cell, Named.lookup_cons, if_pos rfl] at hself
  cases hself

end Native

end Gridbook
