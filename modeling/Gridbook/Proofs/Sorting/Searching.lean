/-
Gridbook/Proofs/Sorting/Searching.lean

Searching for a place in a run.  A test that holds up to a place and not from there on is
asked at offsets that grow, until it has held and failed, and then in the middle of what is
left.  Nothing is asked beyond the run, and the steps suffice: an offset that has not been
refused is at least as far as the number of steps taken.

Main statements: halving finds the place (`bisect_eq`), and so does searching outwards from
any hint in the run (`gallop_eq`); of a member, it is the place after all that it does not
come before (`placeAfter_eq`), or after all that come before it (`placeBefore_eq`).
-/
import Gridbook.Proofs.Outcome
import Gridbook.Proofs.Sorting.Alike
import Gridbook.Sorting.Runs

namespace Gridbook.Runs

variable {α ε : Type}

/-- Does the comparison answer on all members of a class, and as `cmp` does? -/
def Decides (less : Less α ε) (cmp : α → α → Ordering) (S : α → Prop) : Prop :=
  ∀ a b : α, S a → S b → less a b = .ok (cmp a b == .lt)

/-! ### A place among numbers -/

section

variable {isBelow : Nat → Except ε Bool} {bound low high held next n k hint fuel : Nat}

/-- The offsets that are asked end up on the two sides of the place. -/
theorem exists_widen (htest : ∀ i < bound, isBelow i = .ok (decide (i < k))) (hk : k ≤ bound)
    (hheld : held < k) (hfuel : 0 < fuel) (hbound : bound < next + fuel) :
    ∃ x y, widen isBelow bound fuel held next = .ok (x, y) ∧ x < k ∧ k ≤ y ∧ y ≤ bound := by
  induction fuel generalizing held next with
  | zero => exact absurd hfuel (Nat.lt_irrefl 0)
  | succ fuel ih =>
    rw [widen]
    split
    · next hnext =>
      rw [htest next hnext]
      by_cases hbelow : next < k
      · rw [decide_eq_true hbelow]
        exact ih hbelow (by omega) (by omega)
      · rw [decide_eq_false hbelow]
        exact ⟨held, next, rfl, hheld, Nat.not_lt.1 hbelow, hnext.le⟩
    · next hnext =>
      exact ⟨held, min next bound, rfl, hheld, by omega, Nat.min_le_right _ _⟩

/-- Halving finds the place. -/
theorem bisect_eq (htest : ∀ i, low ≤ i → i < high → isBelow i = .ok (decide (i < k)))
    (hlow : low ≤ k) (hhigh : k ≤ high) (hfuel : high ≤ low + fuel) :
    bisect isBelow fuel low high = .ok k := by
  induction fuel generalizing low high with
  | zero => exact congrArg Except.ok (by omega)
  | succ fuel ih =>
    rw [bisect]
    split
    · next hlt =>
      dsimp only
      rw [htest _ (by omega) (by omega)]
      by_cases hbelow : (low + high) / 2 < k
      · rw [decide_eq_true hbelow]
        exact ih (fun i hi => htest i (by omega)) hbelow hhigh (by omega)
      · rw [decide_eq_false hbelow]
        exact ih (fun i hi hlt => htest i hi (by omega)) hlow (by omega) (by omega)
    · exact congrArg Except.ok (by omega)

/-- Searching from a hint finds the place, on whichever side of the hint it is. -/
theorem gallop_eq (htest : ∀ i < n, isBelow i = .ok (decide (i < k))) (hk : k ≤ n)
    (hhint : hint < n) : gallop isBelow n hint = .ok k := by
  rw [gallop, htest hint hhint]
  by_cases hbelow : hint < k
  · rw [decide_eq_true hbelow]
    have habove : ∀ i < n - hint, isBelow (hint + i) = .ok (decide (i < k - hint)) := fun i hi =>
      (htest _ (by omega)).trans (congrArg Except.ok (decide_eq_decide.2 (by omega)))
    obtain ⟨x, y, hwiden, hx, hy, hbound⟩ : ∃ x y,
        widen (fun i => isBelow (hint + i)) (n - hint) n 0 1 = .ok (x, y) ∧
          x < k - hint ∧ k - hint ≤ y ∧ y ≤ n - hint :=
      exists_widen habove (by omega) (by omega) (by omega) (by omega)
    refine Outcome.bind_eq_ok.2 ⟨_, rfl, Outcome.bind_eq_ok.2 ⟨(x, y), hwiden, ?_⟩⟩
    exact bisect_eq (fun i _ hi => htest i (by omega)) (by omega) (by omega) (by omega)
  · rw [decide_eq_false hbelow]
    -- downwards from the hint it is asked where the test does not hold any more
    have hbehind : ∀ i < hint + 1,
        (isBelow (hint - i)).map (!·) = .ok (decide (i < hint - k + 1)) := fun i hi => by
      rw [htest _ (by omega)]
      show Except.ok (!decide (hint - i < k)) = _
      rw [← decide_not]
      exact congrArg Except.ok (decide_eq_decide.2 (by omega))
    obtain ⟨x, y, hwiden, hx, hy, hbound⟩ : ∃ x y,
        widen (fun i => (isBelow (hint - i)).map (!·)) (hint + 1) n 0 1 = .ok (x, y) ∧
          x < hint - k + 1 ∧ hint - k + 1 ≤ y ∧ y ≤ hint + 1 :=
      exists_widen hbehind (by omega) (by omega) (by omega) (by omega)
    refine Outcome.bind_eq_ok.2 ⟨_, rfl, Outcome.bind_eq_ok.2 ⟨(x, y), hwiden, ?_⟩⟩
    exact bisect_eq (fun i _ hi => htest i (by omega)) (by omega) (by omega) (by omega)

end

/-! ### A place in a run -/

/-- In a list in which nothing behind a member passes a test that this one fails, the members
that pass are the first ones. -/
theorem decide_lt_takeWhile {p : α → Bool} {as : List α} (h : as.Pairwise fun a b => p b → p a)
    {i : Nat} (hi : i < as.length) : p as[i] = decide (i < (as.takeWhile p).length) := by
  induction as generalizing i with
  | nil => exact absurd hi (Nat.not_lt_zero i)
  | cons a as ih =>
    obtain ⟨ha, has⟩ := List.pairwise_cons.1 h
    rw [List.takeWhile_cons]
    cases i with
    | zero =>
      cases hpa : p a with
      | true => simpa using hpa
      | false => simpa using hpa
    | succ i =>
      have hi : i < as.length := Nat.lt_of_succ_lt_succ hi
      have hrest : p as[i] = decide (i < (as.takeWhile p).length) := ih has hi
      cases hpa : p a with
      | true => simpa using hrest
      | false =>
        have hfails : p as[i] = false :=
          Bool.eq_false_iff.2 fun hp => Bool.eq_false_iff.1 hpa (ha _ (List.getElem_mem hi) hp)
        simpa using hfails

/-- The members before that place pass the test, and the others fail it. -/
theorem forall_take_drop {p : α → Bool} {as : List α} (h : as.Pairwise fun a b => p b → p a) :
    (∀ a ∈ as.take (as.takeWhile p).length, p a = true) ∧
      ∀ a ∈ as.drop (as.takeWhile p).length, p a = false := by
  refine ⟨fun a ha => ?_, fun a ha => ?_⟩
  · obtain ⟨i, hi, rfl⟩ := List.mem_iff_getElem.1 ha
    have hbound := hi
    rw [List.length_take] at hbound
    rw [List.getElem_take, decide_lt_takeWhile h]
    exact decide_eq_true (by omega)
  · obtain ⟨i, hi, rfl⟩ := List.mem_iff_getElem.1 ha
    rw [List.getElem_drop, decide_lt_takeWhile h]
    exact decide_eq_false (by omega)

variable {cmp : α → α → Ordering} [Std.TransCmp cmp] {less : Less α ε} {S : α → Prop}

/-- What does not come before the other one is not behind it the other way round. -/
theorem not_lt_iff {a b : α} : (cmp a b == .lt) = false ↔ (cmp b a).isLE := by
  rw [beq_eq_false_iff_ne, Ordering.isLE_iff_ne_gt]
  exact not_congr Std.OrientedCmp.gt_iff_lt.symm

/-- The members of a run that come before `key`. -/
def before (cmp : α → α → Ordering) (key : α) (as : List α) : List α :=
  as.takeWhile fun a => cmp a key == .lt

/-- The members of a run that `key` does not come before. -/
def upTo (cmp : α → α → Ordering) (key : α) (as : List α) : List α :=
  as.takeWhile fun a => !(cmp key a == .lt)

theorem pairwise_before {as : List α} (horder : InOrder cmp as) (key : α) :
    as.Pairwise fun a b => (cmp b key == .lt) → (cmp a key == .lt) :=
  horder.imp fun hab hb => beq_iff_eq.2 (Std.TransCmp.lt_of_isLE_of_lt hab (beq_iff_eq.1 hb))

theorem pairwise_upTo {as : List α} (horder : InOrder cmp as) (key : α) :
    as.Pairwise fun a b => !(cmp key b == .lt) → !(cmp key a == .lt) :=
  horder.imp fun hab hb => by
    rw [Bool.not_eq_true'] at hb ⊢
    exact not_lt_iff.2 (Std.TransCmp.isLE_trans hab (not_lt_iff.1 hb))

/-- The place behind the members that come before `key`. -/
theorem forall_before {as : List α} (horder : InOrder cmp as) (key : α) :
    (∀ a ∈ as.take (before cmp key as).length, cmp a key = .lt) ∧
      ∀ a ∈ as.drop (before cmp key as).length, (cmp key a).isLE := by
  obtain ⟨htake, hdrop⟩ := forall_take_drop (pairwise_before horder key)
  exact ⟨fun a ha => beq_iff_eq.1 (htake a ha), fun a ha => not_lt_iff.1 (hdrop a ha)⟩

/-- The place behind the members that `key` does not come before. -/
theorem forall_upTo {as : List α} (horder : InOrder cmp as) (key : α) :
    (∀ a ∈ as.take (upTo cmp key as).length, (cmp a key).isLE) ∧
      ∀ a ∈ as.drop (upTo cmp key as).length, cmp key a = .lt := by
  obtain ⟨htake, hdrop⟩ := forall_take_drop (pairwise_upTo horder key)
  refine ⟨fun a ha => not_lt_iff.1 (Bool.not_eq_eq_eq_not.1 (htake a ha)), fun a ha => ?_⟩
  exact beq_iff_eq.1 (Bool.not_eq_eq_eq_not.1 (hdrop a ha))

variable [Inhabited α] {key : α} {run : Array α} {hint : Nat}

theorem getD_eq {i : Nat} (hi : i < run.size) : run.getD i default = run.toList[i] := by
  rw [Array.getD_eq_getD_getElem?, Array.getElem?_eq_getElem hi]
  rfl

theorem ask_before (hless : Decides less cmp S) (hkey : S key) (hrun : ∀ a ∈ run.toList, S a)
    (horder : InOrder cmp run.toList) : ∀ i < run.size,
      less (run.getD i default) key = .ok (decide (i < (before cmp key run.toList).length)) := by
  intro i hi
  rw [getD_eq hi, hless _ _ (hrun _ (List.getElem_mem _)) hkey]
  exact congrArg Except.ok (decide_lt_takeWhile (pairwise_before horder key) _)

theorem ask_upTo (hless : Decides less cmp S) (hkey : S key) (hrun : ∀ a ∈ run.toList, S a)
    (horder : InOrder cmp run.toList) : ∀ i < run.size,
      (less key (run.getD i default)).map (!·) =
        .ok (decide (i < (upTo cmp key run.toList).length)) := by
  intro i hi
  rw [getD_eq hi, hless _ _ hkey (hrun _ (List.getElem_mem _))]
  exact congrArg Except.ok (decide_lt_takeWhile (pairwise_upTo horder key) _)

/-- The place before its equals is behind the members that come before it. -/
theorem placeBefore_eq (hless : Decides less cmp S) (hkey : S key) (hrun : ∀ a ∈ run.toList, S a)
    (horder : InOrder cmp run.toList) (hhint : hint < run.size) :
    placeBefore less key run hint = .ok (before cmp key run.toList).length :=
  gallop_eq (ask_before hless hkey hrun horder) (List.takeWhile_prefix _).length_le hhint

/-- The place after its equals is behind the members that it does not come before. -/
theorem placeAfter_eq (hless : Decides less cmp S) (hkey : S key) (hrun : ∀ a ∈ run.toList, S a)
    (horder : InOrder cmp run.toList) (hhint : hint < run.size) :
    placeAfter less key run hint = .ok (upTo cmp key run.toList).length :=
  gallop_eq (ask_upTo hless hkey hrun horder) (List.takeWhile_prefix _).length_le hhint

end Gridbook.Runs
