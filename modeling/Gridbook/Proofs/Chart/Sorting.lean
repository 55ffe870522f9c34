/-
Gridbook/Proofs/Chart/Sorting.lean

Points in the order of their x.  Keys of points of stored rows are plain, and on plain keys
the comparison is that of a line: by kind, then by value, then by code points
(`Key.compare_eq_lineCompare`).  Off the plain keys the line is still one, which makes it the
comparison to reason with; the comparison of all keys is not.

Main statements: points with ordinary x are put in order exactly if their x have keys
(`sortByX_eq_ok`), and then the result is their stable sort along the line
(`stableSort_sortByX`), in which the keys do not decrease (`pairwise_of_sortByX`).
-/
import Gridbook.Proofs.Chart.Arranging
import Gridbook.Proofs.Store.Order

namespace Gridbook

variable {α : Type}

/-! ### Lists in order -/

theorem insertBy_congr {le le' : α → α → Bool} {a : α} {bs : List α}
    (h : ∀ b ∈ bs, le a b = le' a b) : insertBy le a bs = insertBy le' a bs := by
  induction bs with
  | nil => rfl
  | cons b bs ih =>
    obtain ⟨hb, hbs⟩ := List.forall_mem_cons.1 h
    rw [insertBy, insertBy, hb, ih hbs]

/-- Sorting looks at the comparison of members only. -/
theorem sortBy_congr {le le' : α → α → Bool} {as : List α}
    (h : ∀ a ∈ as, ∀ b ∈ as, le a b = le' a b) : sortBy le as = sortBy le' as := by
  induction as with
  | nil => rfl
  | cons a as ih =>
    have hsorted : sortBy le as = sortBy le' as := ih fun b hb c hc =>
      h b (List.mem_cons_of_mem a hb) c (List.mem_cons_of_mem a hc)
    rw [sortBy, sortBy, hsorted]
    refine insertBy_congr fun b hb => ?_
    exact h a List.mem_cons_self b (List.mem_cons_of_mem a ((perm_sortBy le' as).mem_iff.1 hb))

/-- What is in order stays as it is. -/
theorem sortBy_of_pairwise {le : α → α → Bool} {as : List α}
    (h : as.Pairwise fun a b => le a b) : sortBy le as = as := by
  induction h with
  | nil => rfl
  | @cons a as ha _ ih =>
    rw [sortBy, ih]
    cases as with
    | nil => rfl
    | cons b as => exact if_pos (ha b List.mem_cons_self)

namespace Point

/-! ### The line of keys -/

namespace Key

/-- Numbers come before texts. -/
def kind : Key → Nat
  | text _ => 1
  | _ => 0

/-- The number of a key; of a text it is zero. -/
def value : Key → Number
  | number n => n
  | double x => .real x
  | text _ => .whole 0

/-- The text of a key; of a number it is empty. -/
def spelling : Key → String
  | text s => s
  | _ => ""

/-- Comparison by kind, then by value, then by code points. -/
def lineCompare (k l : Key) : Ordering :=
  (Ord.compare k.kind l.kind).then
    ((k.value.compare l.value).then (Ord.compare k.spelling l.spelling))

instance : Std.TransCmp lineCompare :=
  have : Std.TransCmp fun k l : Key => k.value.compare l.value := transCmp_of_key value
  inferInstanceAs (Std.TransCmp (compareLex (compareOn kind)
    (compareLex (fun k l => k.value.compare l.value) (compareOn spelling))))

/-- Plain keys are compared along the line. -/
theorem compare_eq_lineCompare {k l : Key} (hk : k.isPlain) (hl : l.isPlain) :
    k.compare l = k.lineCompare l := by
  cases k with
  | double x => cases hk
  | number m =>
    cases l with
    | double x => cases hl
    | number n => simp [compare, lineCompare, kind, value, spelling, Std.ReflCmp.compare_self]
    | text t => rfl
  | text s =>
    cases l with
    | double x => cases hl
    | number n => rfl
    | text t => simp [compare, lineCompare, kind, value, spelling, Std.ReflCmp.compare_self]

end Key

/-! ### Points in order -/

/-- The key of a point; a point without one has an empty text for it. -/
def key (p : Point) : Key :=
  (Key.ofCell p.x).toOption.getD (.text "")

theorem ofCell_eq_key {p : Point} (h : ∃ k, Key.ofCell p.x = .ok k) :
    Key.ofCell p.x = .ok p.key := by
  obtain ⟨k, hk⟩ := h
  rw [key, hk]
  rfl

theorem isPlain_key {p : Point} (hx : p.x.isOrdinary) (h : ∃ k, Key.ofCell p.x = .ok k) :
    p.key.isPlain :=
  Key.isPlain_of_isOrdinary hx (ofCell_eq_key h)

/-- Comparison of points by their keys. -/
def compareX (p q : Point) : Ordering :=
  p.key.lineCompare q.key

instance : Std.TransCmp compareX :=
  transCmp_of_key key

variable {ps qs : List Point}

/-- Points with ordinary x are put in order exactly if all have keys, and then along the
line. -/
theorem sortByX_eq_ok (hx : ∀ p ∈ ps, p.x.isOrdinary) : sortByX ps = .ok qs ↔
    (∀ p ∈ ps, ∃ k, Key.ofCell p.x = .ok k) ∧ qs = sortBy (fun p q => (compareX p q).isLE) ps := by
  have hsorted : (∀ p ∈ ps, ∃ k, Key.ofCell p.x = .ok k) →
      sortByX ps = .ok (sortBy (fun p q => (compareX p q).isLE) ps) := by
    intro hkeys
    have hof : ∀ p ∈ ps, Key.ofCell p.x = .ok p.key := fun p hp => ofCell_eq_key (hkeys p hp)
    have hplain : ∀ p ∈ ps, p.key.isPlain := fun p hp => isPlain_key (hx p hp) (hkeys p hp)
    have hkeyed : (ps.mapM fun p => (Key.ofCell p.x).map fun k => (k, p)) =
        .ok (ps.map fun p => (p.key, p)) :=
      Outcome.mapM_of_forall fun p hp => by
        rw [hof p hp]
        rfl
    have hall : (ps.map fun p => (p.key, p)).all (·.1.isPlain) = true := by
      simpa using hplain
    rw [sortByX, hkeyed]
    show (if (ps.map fun p => (p.key, p)).all (·.1.isPlain) then _ else _) = _
    rw [if_pos hall, map_sortBy]
    -- without their keys the sorted pairs are the sorted points
    show Except.ok (List.map _ (List.map _ _)) = _
    rw [List.map_map, sortBy_congr fun p hp q hq => congrArg Ordering.isLE
      (Key.compare_eq_lineCompare (hplain p hp) (hplain q hq))]
    exact congrArg Except.ok (List.map_id _)
  constructor
  · intro h
    have hkeys : ∀ p ∈ ps, ∃ k, Key.ofCell p.x = .ok k := by
      obtain ⟨keyed, hkeyed, -⟩ := Outcome.bind_eq_ok.1 h
      intro p hp
      obtain ⟨kp, -, hkp⟩ := Outcome.ok_of_mem_mapM hkeyed hp
      obtain ⟨k, hk, -⟩ := Outcome.map_eq_ok.1 hkp
      exact ⟨k, hk⟩
    exact ⟨hkeys, Except.ok.inj (h.symm.trans (hsorted hkeys))⟩
  · rintro ⟨hkeys, rfl⟩
    exact hsorted hkeys

/-- Putting points in order permutes them. -/
theorem perm_sortByX (hx : ∀ p ∈ ps, p.x.isOrdinary) (h : sortByX ps = .ok qs) : qs.Perm ps := by
  obtain ⟨-, rfl⟩ := (sortByX_eq_ok hx).1 h
  exact perm_sortBy _ ps

/-- Points are put in order stably. -/
theorem stableSort_sortByX (hx : ∀ p ∈ ps, p.x.isOrdinary) (h : sortByX ps = .ok qs) :
    StableSort compareX ps qs := by
  obtain ⟨-, rfl⟩ := (sortByX_eq_ok hx).1 h
  exact stableSort_sortBy ps

/-- Points in order have keys that do not decrease. -/
theorem pairwise_of_sortByX (hx : ∀ p ∈ ps, p.x.isOrdinary) (h : sortByX ps = .ok qs) :
    qs.Pairwise fun p q => ∃ k l, Key.ofCell p.x = .ok k ∧ Key.ofCell q.x = .ok l ∧
      k.isPlain ∧ l.isPlain ∧ (k.compare l).isLE := by
  have hmem := fun p => (perm_sortByX hx h).mem_iff (a := p)
  obtain ⟨hkeys, rfl⟩ := (sortByX_eq_ok hx).1 h
  refine (pairwise_isLE_sortBy ps).imp_of_mem fun {p q} hp hq hle => ?_
  have hpkey := hkeys p ((hmem p).1 hp)
  have hqkey := hkeys q ((hmem q).1 hq)
  have hpplain := isPlain_key (hx p ((hmem p).1 hp)) hpkey
  have hqplain := isPlain_key (hx q ((hmem q).1 hq)) hqkey
  refine ⟨p.key, q.key, ofCell_eq_key hpkey, ofCell_eq_key hqkey, hpplain, hqplain, ?_⟩
  rwa [Key.compare_eq_lineCompare hpplain hqplain]

end Point

end Gridbook
