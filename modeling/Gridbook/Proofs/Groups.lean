/-
Gridbook/Proofs/Groups.lean

The members of a list in groups by a key of theirs.  The group of the first member
is taken off, and what is left is grouped in the same way (`groupsBy_cons`): nearly
all that is said here goes through a list in these steps (`groupsBy_induct`).

Main statements: the groups are a permutation of the list (`perm_groupsBy`), and
what they are hangs only on which members the key tells apart
(`map_snd_groupsBy_congr`).
-/
import Mathlib.Algebra.Ring.Nat
import Mathlib.Data.List.Basic
import Gridbook.Groups

namespace Gridbook

variable {α κ ι : Type} [DecidableEq κ] [DecidableEq ι]

/-! ### Distinct members -/

theorem distinct_filter (p : κ → Bool) (ks : List κ) :
    distinct (ks.filter p) = (distinct ks).filter p := by
  induction ks with
  | nil => rfl
  | cons k ks ih =>
    by_cases hk : p k
    · rw [List.filter_cons_of_pos hk, distinct, distinct, List.filter_cons_of_pos hk, ih,
        List.filter_filter, List.filter_filter]
      exact congrArg _ (List.filter_congr fun _ _ => Bool.and_comm ..)
    · rw [List.filter_cons_of_neg hk, distinct, List.filter_cons_of_neg hk, ih,
        List.filter_filter]
      refine List.filter_congr fun l _ => ?_
      by_cases hl : l = k
      · rw [hl, Bool.eq_false_iff.2 hk, Bool.false_and]
      · rw [decide_eq_true hl, Bool.and_true]

theorem distinct_cons (k : κ) (ks : List κ) :
    distinct (k :: ks) = k :: distinct (ks.filter (· ≠ k)) := by
  rw [distinct, distinct_filter]

/-- Distinct members stand in the order of their first places. -/
theorem pairwise_findIdx_distinct (ks : List κ) :
    (distinct ks).Pairwise fun k l => ks.findIdx (· = k) < ks.findIdx (· = l) := by
  induction ks with
  | nil => exact List.Pairwise.nil
  | cons a ks ih =>
    have hplace : ∀ {k}, k ∈ (distinct ks).filter (· ≠ a) →
        (a :: ks).findIdx (· = k) = ks.findIdx (· = k) + 1 := fun hk => by
      have hne : a ≠ _ := (of_decide_eq_true (List.mem_filter.1 hk).2).symm
      rw [List.findIdx_cons, decide_eq_false hne]
      rfl
    refine List.pairwise_cons.2 ⟨fun k hk => ?_, ?_⟩
    · rw [hplace hk, List.findIdx_cons, decide_eq_true rfl]
      exact Nat.succ_pos _
    · refine (ih.filter _).imp_of_mem fun hk hl h => ?_
      rw [hplace hk, hplace hl]
      exact Nat.succ_lt_succ h

/-- Members that are distinct before a map are not needed to tell what is distinct
after it. -/
theorem distinct_map_distinct (f : κ → ι) (ks : List κ) :
    distinct ((distinct ks).map f) = distinct (ks.map f) := by
  induction ks with
  | nil => rfl
  | cons k ks ih =>
    -- what the first member repels before the map, its image repels after it
    have hfilter : (((distinct ks).filter (· ≠ k)).map f).filter (· ≠ f k) =
        ((distinct ks).map f).filter (· ≠ f k) := by
      rw [List.filter_map, List.filter_map, List.filter_filter]
      refine congrArg _ (List.filter_congr fun l _ => ?_)
      by_cases hl : l = k
      · simp [hl]
      · simp [hl]
    rw [distinct, List.map_cons, distinct_cons, hfilter, distinct_filter, ih, ← distinct_filter,
      List.map_cons, distinct_cons]

/-! ### Groups by a key -/

/-- The members of a list in groups by a key of theirs. -/
def groupsBy (key : α → κ) (as : List α) : List (κ × List α) :=
  groups (as.map fun a => (key a, a))

variable {key : α → κ}

theorem groupsBy_eq (key : α → κ) (as : List α) :
    groupsBy key as =
      (distinct (as.map key)).map fun k => (k, as.filter fun a => key a = k) := by
  unfold groupsBy groups
  rw [List.map_map]
  refine List.map_congr_left fun k _ => ?_
  rw [List.filter_map, List.map_map]
  exact congrArg _ (List.map_id' _)

theorem map_fst_groupsBy (key : α → κ) (as : List α) :
    (groupsBy key as).map (·.1) = distinct (as.map key) := by
  rw [groupsBy_eq, List.map_map]
  exact List.map_id' _

theorem groupsBy_map {β : Type} (key : α → κ) (f : β → α) (bs : List β) :
    groupsBy key (bs.map f) = (groupsBy (fun b => key (f b)) bs).map fun g => (g.1, g.2.map f) := by
  rw [groupsBy_eq, groupsBy_eq, List.map_map, List.map_map]
  refine List.map_congr_left fun k _ => ?_
  rw [List.filter_map]
  rfl

/-- The group of the first member, and the groups of what is left without it. -/
theorem groupsBy_cons (key : α → κ) (a : α) (as : List α) :
    groupsBy key (a :: as) = (key a, a :: as.filter fun b => key b = key a) ::
      groupsBy key (as.filter fun b => key b ≠ key a) := by
  have hfirst : (a :: as).filter (fun b => key b = key a) = a :: as.filter fun b => key b = key a :=
    List.filter_cons_of_pos (decide_eq_true rfl)
  rw [groupsBy_eq, groupsBy_eq, List.map_cons, distinct_cons, List.map_cons, hfirst,
    List.filter_map]
  refine congrArg _ (List.map_congr_left fun k hk => ?_)
  obtain ⟨b, hb, rfl⟩ := List.mem_map.1 (mem_distinct.1 hk)
  have hne : key b ≠ key a := of_decide_eq_true (List.mem_filter.1 hb).2
  rw [List.filter_cons_of_neg fun h => hne (of_decide_eq_true h).symm, List.filter_filter]
  refine congrArg _ (List.filter_congr fun c _ => ?_)
  by_cases hc : key c = key b
  · rw [decide_eq_true hc, hc, decide_eq_true hne, Bool.and_true]
  · rw [decide_eq_false hc, Bool.false_and]

/-- Induction that takes off the group of the first member. -/
theorem groupsBy_induct (key : α → κ) {P : List α → Prop} (nil : P [])
    (cons : ∀ a as, P (as.filter fun b => key b ≠ key a) → P (a :: as)) (as : List α) : P as := by
  generalize hn : as.length = n
  induction n using Nat.strongRecOn generalizing as with
  | ind n ih =>
    cases as with
    | nil => exact nil
    | cons a as =>
      refine cons a as (ih _ ?_ _ rfl)
      rw [← hn]
      exact Nat.lt_succ_of_le (List.length_filter_le _ as)

/-- A group is what the list has under its key, and that is something. -/
theorem mem_groupsBy {as : List α} {g : κ × List α} :
    g ∈ groupsBy key as ↔ g.1 ∈ as.map key ∧ g.2 = as.filter fun a => key a = g.1 := by
  rw [groupsBy_eq, List.mem_map]
  constructor
  · rintro ⟨k, hk, rfl⟩
    exact ⟨mem_distinct.1 hk, rfl⟩
  · rintro ⟨hk, hg⟩
    exact ⟨g.1, mem_distinct.2 hk, Prod.ext rfl hg.symm⟩

theorem mem_of_mem_groupsBy {as : List α} {g : κ × List α} (hg : g ∈ groupsBy key as) :
    ∀ a ∈ g.2, a ∈ as := fun a ha => by
  rw [(mem_groupsBy.1 hg).2] at ha
  exact (List.mem_filter.1 ha).1

theorem exists_head_of_mem_groupsBy {as : List α} {g : κ × List α} (hg : g ∈ groupsBy key as) :
    ∃ a rest, g.2 = a :: rest ∧ key a = g.1 := by
  obtain ⟨hk, hmembers⟩ := mem_groupsBy.1 hg
  obtain ⟨b, hb, hkey⟩ := List.mem_map.1 hk
  have hb : b ∈ g.2 := hmembers ▸ List.mem_filter.2 ⟨hb, decide_eq_true hkey⟩
  cases hg : g.2 with
  | nil =>
    rw [hg] at hb
    cases hb
  | cons a rest =>
    have ha : a ∈ as.filter fun a => key a = g.1 := hmembers ▸ hg ▸ List.mem_cons_self
    exact ⟨a, rest, rfl, of_decide_eq_true (List.mem_filter.1 ha).2⟩

/-- The first member of each group. -/
def firstsBy (key : α → κ) (as : List α) : List α :=
  (groupsBy key as).filterMap fun g => g.2.head?

theorem mem_of_mem_firstsBy {as : List α} {a : α} (h : a ∈ firstsBy key as) : a ∈ as := by
  obtain ⟨g, hg, ha⟩ := List.mem_filterMap.1 h
  exact mem_of_mem_groupsBy hg a (List.mem_of_mem_head? ha)

/-- A first member is found where one looks for its key. -/
theorem find?_of_mem_firstsBy {as : List α} {a : α} (h : a ∈ firstsBy key as) :
    as.find? (fun b => key b = key a) = some a := by
  obtain ⟨g, hg, ha⟩ := List.mem_filterMap.1 h
  obtain ⟨b, rest, hmembers, hb⟩ := exists_head_of_mem_groupsBy hg
  rw [hmembers] at ha
  cases ha
  rw [← List.head?_filter, hb, ← (mem_groupsBy.1 hg).2, hmembers]
  rfl

/-- A map of the groups that goes by their first members. -/
theorem filterMap_groupsBy {β : Type} (key : α → κ) (f : α → List α → β) (as : List α) :
    (groupsBy key as).filterMap (fun g => g.2.head?.map fun a => f a g.2) =
      (firstsBy key as).map fun a => f a (as.filter fun b => key b = key a) := by
  rw [firstsBy, List.map_filterMap]
  refine List.filterMap_congr fun g hg => ?_
  obtain ⟨a, rest, hmembers, ha⟩ := exists_head_of_mem_groupsBy hg
  have hfilter : (as.filter fun b => key b = key a) = g.2 := by
    rw [ha]
    exact (mem_groupsBy.1 hg).2.symm
  show g.2.head?.map _ = g.2.head?.map _
  rw [hmembers, List.head?_cons, Option.map_some, Option.map_some, hfilter, hmembers]

/-- The first members stand for the keys. -/
theorem map_key_firstsBy (key : α → κ) (as : List α) :
    (firstsBy key as).map key = distinct (as.map key) := by
  rw [← map_fst_groupsBy, firstsBy, List.map_filterMap, ← List.filterMap_eq_map]
  refine List.filterMap_congr fun g hg => ?_
  obtain ⟨a, rest, hmembers, ha⟩ := exists_head_of_mem_groupsBy hg
  show g.2.head?.map key = some g.1
  rw [hmembers, ← ha]
  rfl

/-- The groups of some of the keys are the groups of the members with these keys. -/
theorem filter_groupsBy (key : α → κ) (p : κ → Bool) (as : List α) :
    (groupsBy key as).filter (fun g => p g.1) = groupsBy key (as.filter fun a => p (key a)) := by
  rw [groupsBy_eq, groupsBy_eq, List.filter_map]
  have hkeys : (as.filter fun a => p (key a)).map key = (as.map key).filter p :=
    (List.filter_map ..).symm
  rw [hkeys, distinct_filter]
  refine List.map_congr_left fun k hk => ?_
  refine congrArg _ ?_
  rw [List.filter_filter]
  refine List.filter_congr fun a _ => ?_
  by_cases ha : key a = k
  · rw [decide_eq_true ha, ha, Bool.true_and]
    exact ((List.mem_filter.1 hk).2).symm
  · rw [decide_eq_false ha, Bool.false_and]

/-- Keys that tell the same members apart make the same groups. -/
theorem map_snd_groupsBy_congr {key' : α → ι} (as : List α)
    (h : ∀ a ∈ as, ∀ b ∈ as, key a = key b ↔ key' a = key' b) :
    (groupsBy key as).map (·.2) = (groupsBy key' as).map (·.2) := by
  induction as using groupsBy_induct key with
  | nil => rfl
  | cons a as ih =>
    have hfirst : ∀ b ∈ as, key b = key a ↔ key' b = key' a := fun b hb =>
      h b (List.mem_cons_of_mem a hb) a List.mem_cons_self
    have hsame : (as.filter fun b => key b = key a) = as.filter fun b => key' b = key' a :=
      List.filter_congr fun b hb => decide_eq_decide.2 (hfirst b hb)
    have hothers : (as.filter fun b => key b ≠ key a) = as.filter fun b => key' b ≠ key' a :=
      List.filter_congr fun b hb => decide_eq_decide.2 (not_congr (hfirst b hb))
    have hrest := ih fun b hb c hc => h b (List.mem_cons_of_mem a (List.mem_filter.1 hb).1)
      c (List.mem_cons_of_mem a (List.mem_filter.1 hc).1)
    rw [groupsBy_cons, groupsBy_cons, List.map_cons, List.map_cons, hsame, hrest, hothers]

/-- No member is lost, and none is there twice. -/
theorem perm_groupsBy (key : α → κ) (as : List α) :
    ((groupsBy key as).flatMap (·.2)).Perm as := by
  induction as using groupsBy_induct key with
  | nil => exact List.Perm.refl _
  | cons a as ih =>
    rw [groupsBy_cons, List.flatMap_cons]
    refine (ih.append_left _).trans (List.Perm.cons a ?_)
    have hothers : (as.filter fun b => key b ≠ key a) = as.filter fun b => !decide (key b = key a) :=
      List.filter_congr fun b _ => decide_not
    rw [hothers]
    exact List.filter_append_perm (fun b => decide (key b = key a)) as

/-- The sizes of the groups add up to the number of members. -/
theorem sum_length_firstsBy (key : α → κ) (as : List α) :
    ((firstsBy key as).map fun a => (as.filter fun b => key b = key a).length).sum = as.length := by
  have hlengths : ((firstsBy key as).map fun a => (as.filter fun b => key b = key a).length) =
      (groupsBy key as).map fun g => g.2.length := by
    rw [← filterMap_groupsBy key (fun _ members => members.length), ← List.filterMap_eq_map]
    refine List.filterMap_congr fun g hg => ?_
    obtain ⟨a, rest, hmembers, -⟩ := exists_head_of_mem_groupsBy hg
    show g.2.head?.map _ = some g.2.length
    rw [hmembers]
    rfl
  rw [hlengths, ← (perm_groupsBy key as).length_eq, List.length_flatMap]

end Gridbook
