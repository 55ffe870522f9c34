/-
Gridbook/Proofs/Chart/Reducing.lean

What combined points are.  There is one for each key, in the order in which the keys first
occur, with the x and the group of the first point that has the key, and its y is the
reduction of the values that have the key, in their order.

A minimum is found by going through the values and keeping the lower one, from the upper
infinity on; the invariant is that nothing before is below what is kept (`foldl_extreme`).

Main statement: combining points whose values are numbers (`points_by_key`).
-/
import Gridbook.Proofs.Chart.Combining
import Gridbook.Proofs.Real.Less

namespace Gridbook

namespace Aggregation

variable {a : Aggregation} {vs : List Float}

/-! ### Reductions -/

/-- Is the number what the values are reduced to? -/
def IsReduction (a : Aggregation) (vs : List Float) (n : Number) : Prop :=
  match a with
  | sum => n = .real (total vs)
  | avg => n = .real (total vs / Float.ofNat vs.length)
  | count => n = .whole vs.length
  | min => ∃ m ∈ vs, n = .real m ∧ ∀ v ∈ vs, ¬ v < m
  | max => ∃ m ∈ vs, n = .real m ∧ ∀ v ∈ vs, ¬ m < v

/-- What is kept of a list, where a member takes the place of what it comes before: the
first one or a member that comes before it, and nothing in the list comes before what is
kept. -/
theorem foldl_extreme {α : Type} (before : α → α → Prop) [DecidableRel before]
    (irrefl : ∀ x, ¬ before x x) (trans : ∀ x y z, before x y → before y z → before x z)
    (first : α) (xs : List α) :
    let kept := xs.foldl (fun m x => if before x m then x else m) first
    (kept = first ∨ kept ∈ xs ∧ before kept first) ∧ ∀ x ∈ first :: xs, ¬ before x kept := by
  induction xs generalizing first with
  | nil => exact ⟨.inl rfl, fun x hx => List.mem_singleton.1 hx ▸ irrefl first⟩
  | cons x xs ih =>
    obtain ⟨hkept, hnone⟩ := ih (if before x first then x else first)
    obtain ⟨hthere, hrest⟩ := List.forall_mem_cons.1 hnone
    rw [List.foldl_cons]
    generalize xs.foldl _ (if before x first then x else first) = kept at hkept hnone hthere hrest ⊢
    by_cases hx : before x first
    · -- what is kept comes before `first` by way of `x`
      rw [if_pos hx] at hkept hthere
      have hfirst : before kept first := by
        rcases hkept with rfl | ⟨-, hkept⟩
        · exact hx
        · exact trans _ _ _ hkept hx
      refine ⟨.inr ⟨?_, hfirst⟩, ?_⟩
      · rcases hkept with rfl | ⟨hmem, -⟩
        · exact List.mem_cons_self
        · exact List.mem_cons_of_mem x hmem
      · refine List.forall_mem_cons.2 ⟨fun h => ?_, List.forall_mem_cons.2 ⟨hthere, hrest⟩⟩
        exact hthere (trans _ _ _ hx h)
    · -- if `x` came before what is kept, it would come before `first`
      rw [if_neg hx] at hkept hthere
      refine ⟨hkept.imp_right fun h => ⟨List.mem_cons_of_mem x h.1, h.2⟩, ?_⟩
      refine List.forall_mem_cons.2 ⟨hthere, List.forall_mem_cons.2 ⟨fun h => hx ?_, hrest⟩⟩
      rcases hkept with rfl | ⟨-, hkept⟩
      · exact h
      · exact trans _ _ _ h hkept

/-- Where a member that does not come before the first one is the first one itself, what is
kept is a member. -/
theorem foldl_extreme_mem {α : Type} (before : α → α → Prop) [DecidableRel before]
    (irrefl : ∀ x, ¬ before x x) (trans : ∀ x y z, before x y → before y z → before x z)
    {first : α} {xs : List α} (hfirst : ∀ x ∈ xs, ¬ before x first → x = first) (hsome : xs ≠ []) :
    let kept := xs.foldl (fun m x => if before x m then x else m) first
    kept ∈ xs ∧ ∀ x ∈ xs, ¬ before x kept := by
  intro kept
  obtain ⟨hkept, hnone⟩ := foldl_extreme before irrefl trans first xs
  have hbound : ∀ x ∈ xs, ¬ before x kept := (List.forall_mem_cons.1 hnone).2
  refine ⟨?_, hbound⟩
  rcases hkept with hlast | ⟨hmem, -⟩
  · -- no member comes before the first one, so that all are this one
    obtain ⟨x, xs, rfl⟩ := List.exists_cons_of_ne_nil hsome
    have hstays : kept = first := hlast
    have hx := hfirst x List.mem_cons_self (hstays ▸ hbound x List.mem_cons_self)
    rw [hstays, ← hx]
    exact List.mem_cons_self
  · exact hmem

/-- The least of some numbers is one of them and bounds them from below. -/
theorem least_spec (hnan : ∀ v ∈ vs, v.isNaN = false) (hsome : vs ≠ []) :
    least vs ∈ vs ∧ ∀ v ∈ vs, ¬ v < least vs :=
  foldl_extreme_mem (fun v m : Float => v < m) Real.less_irrefl (fun _ _ _ => Real.less_trans)
    (fun v hv => Real.eq_infinity (hnan v hv)) hsome

/-- The greatest of some numbers is one of them and bounds them from above. -/
theorem greatest_spec (hnan : ∀ v ∈ vs, v.isNaN = false) (hsome : vs ≠ []) :
    greatest vs ∈ vs ∧ ∀ v ∈ vs, ¬ greatest vs < v :=
  foldl_extreme_mem (fun v m : Float => m < v) Real.less_irrefl
    (fun _ _ _ h h' => Real.less_trans h' h) (fun v hv => Real.eq_neg_infinity (hnan v hv)) hsome

theorem isReduction_reduce (a : Aggregation) (hnan : ∀ v ∈ vs, v.isNaN = false)
    (hsome : vs ≠ []) : a.IsReduction vs (a.reduce vs) := by
  have hvalues : vs.filter (!·.isNaN) = vs := List.filter_eq_self.2 fun v hv => by
    rw [hnan v hv]
    rfl
  have hempty : vs.isEmpty = false := List.isEmpty_eq_false_iff.2 hsome
  unfold reduce
  dsimp only
  rw [hvalues, hempty]
  cases a with
  | sum => rfl
  | avg => rfl
  | count => rfl
  | min =>
    obtain ⟨hmem, hbound⟩ := least_spec hnan hsome
    exact ⟨least vs, hmem, rfl, hbound⟩
  | max =>
    obtain ⟨hmem, hbound⟩ := greatest_spec hnan hsome
    exact ⟨greatest vs, hmem, rfl, hbound⟩

end Aggregation

/-! ### Combined points -/

namespace Point

/-- The value of a point as it is combined. -/
def numeric (p : Point) : Float :=
  (Aggregation.pointValue p.y).toOption.getD 0

/-- Has the point a value that is a number? -/
def IsNumeric (p : Point) : Prop :=
  ∃ v, Aggregation.pointValue p.y = .ok v ∧ v.isNaN = false

theorem isNumeric_iff {p : Point} : p.IsNumeric ↔
    ((Aggregation.pointValue p.y).map Float.isNaN).toOption = some false := by
  refine ⟨fun ⟨v, hv, hnan⟩ => ?_, fun h => Outcome.of_toOption_map h⟩
  rw [hv]
  exact congrArg some hnan

instance (p : Point) : Decidable p.IsNumeric :=
  decidable_of_iff _ isNumeric_iff.symm

theorem IsNumeric.pointValue_eq {p : Point} (h : p.IsNumeric) :
    Aggregation.pointValue p.y = .ok p.numeric := by
  obtain ⟨v, hv, -⟩ := h
  rw [numeric, hv]
  rfl

theorem IsNumeric.isNaN_numeric {p : Point} (h : p.IsNumeric) : p.numeric.isNaN = false := by
  obtain ⟨v, hv, hnan⟩ := h
  rw [numeric, hv]
  exact hnan

end Point

namespace Aggregation

variable {a : Aggregation} {ps : List Point}

/-- Points whose values are numbers are combined if all labels have texts, and only then.
There is one combined point for each key, and the keys stand in the order of their first
places.  A combined point is the first point that has its key but for the y, which is the
reduction of the values of all points that have the key, as they stand; so the numbers of
values add up to the number of points. -/
theorem points_by_key (a : Aggregation) (grouped : Bool) (hps : ∀ p ∈ ps, p.IsNumeric) :
    (ps.all (hasKey grouped) = false → a.points grouped ps = .error (.conversion .badValue)) ∧
    (ps.all (hasKey grouped) = true → ∃ qs, a.points grouped ps = .ok qs ∧
      (∀ k, k ∈ qs.map (pointKey grouped) ↔ k ∈ ps.map (pointKey grouped)) ∧
      ((qs.map (pointKey grouped)).Pairwise fun k l =>
        (ps.map (pointKey grouped)).findIdx (· = k) < (ps.map (pointKey grouped)).findIdx (· = l)) ∧
      (∀ q ∈ qs, ∃ p n, ps.find? (fun p => pointKey grouped p = pointKey grouped q) = some p ∧
        q = { p with y := .number n } ∧ a.IsReduction
          ((ps.filter fun p => pointKey grouped p = pointKey grouped q).map Point.numeric) n) ∧
      (a = .count → ∃ ns : List Nat, qs.map (·.y) = ns.map (fun n : Nat => .number (.whole n)) ∧
        ns.sum = ps.length)) := by
  have hpoints := points_of_values a grouped fun p hp => (hps p hp).pointValue_eq
  rw [hpoints]
  constructor
  · intro hkeys
    rw [hkeys]
    rfl
  intro hkeys
  rw [if_pos hkeys]
  let values (p : Point) : List Float :=
    (ps.filter fun q => pointKey grouped q = pointKey grouped p).map Point.numeric
  let combined (p : Point) : Point := { p with y := .number (a.reduce (values p)) }
  have hlabels : ((firstsBy (pointKey grouped) ps).map combined).map (pointKey grouped) =
      distinct (ps.map (pointKey grouped)) := by
    rw [List.map_map]
    exact map_key_firstsBy (pointKey grouped) ps
  have hreduced : ∀ p ∈ firstsBy (pointKey grouped) ps,
      a.IsReduction (values p) (a.reduce (values p)) := fun p hp => by
    refine isReduction_reduce a (fun v hv => ?_) fun hnone => ?_
    · obtain ⟨q, hq, rfl⟩ := List.mem_map.1 hv
      exact (hps q (List.mem_filter.1 hq).1).isNaN_numeric
    · -- the point itself has its key, so there is a value to reduce
      have hself : p ∈ ps.filter fun q => pointKey grouped q = pointKey grouped p :=
        List.mem_filter.2 ⟨mem_of_mem_firstsBy hp, decide_eq_true rfl⟩
      exact List.ne_nil_of_mem hself (List.map_eq_nil_iff.1 hnone)
  refine ⟨(firstsBy (pointKey grouped) ps).map combined, rfl, fun k => ?_, ?_, fun q hq => ?_, ?_⟩
  · rw [hlabels, mem_distinct]
  · rw [hlabels]
    exact pairwise_findIdx_distinct _
  · obtain ⟨p, hp, rfl⟩ := List.mem_map.1 hq
    exact ⟨p, _, find?_of_mem_firstsBy hp, rfl, hreduced p hp⟩
  · rintro rfl
    refine ⟨_, ?_, sum_length_firstsBy (pointKey grouped) ps⟩
    rw [List.map_map, List.map_map]
    refine List.map_congr_left fun p hp => congrArg Cell.number ?_
    have hcount : count.reduce (values p) = .whole (values p).length := hreduced p hp
    rw [hcount, List.length_map]

/-- Three points at two places, with a truth value, a text and a whole number for their
values. -/
theorem points_by_key_three :
    let ps : List Point := [⟨.text "b", .bool true, .null⟩,
      ⟨.number (.whole 1), .text "-2", .text "g"⟩, ⟨.text "1", .number (.whole 5), .null⟩]
    (∀ p ∈ ps, p.IsNumeric) ∧ ∃ qs, count.points false ps = .ok qs ∧
      (∀ k, k ∈ qs.map (pointKey false) ↔ k ∈ ps.map (pointKey false)) ∧
      ∃ ns : List Nat, qs.map (·.y) = ns.map (fun n : Nat => .number (.whole n)) ∧
        ns.sum = 3 := by
  intro ps
  have hps : ∀ p ∈ ps, p.IsNumeric := by decide +kernel
  obtain ⟨qs, hqs, hkeys, -, -, hcounts⟩ := (points_by_key count false hps).2 (by decide +kernel)
  exact ⟨hps, qs, hqs, hkeys, hcounts rfl⟩

/-- The group has no text, for it is a whole number of more digits than are written. -/
theorem group_without_text :
    let p : Point := ⟨.text "a", .number (.whole 1), .number (.whole (10 ^ 4300))⟩
    p.IsNumeric ∧ sum.points true [p] = .error (.conversion .badValue) := by
  intro p
  have hps : ∀ q ∈ [p], q.IsNumeric := by decide +kernel
  refine ⟨hps p List.mem_cons_self, ?_⟩
  exact (points_of_values sum true fun q hq => (hps q hq).pointValue_eq).trans
    (if_neg (by decide +kernel))

end Aggregation

end Gridbook
