/-
Gridbook/Proofs/Sorting/Runs.lean

Merging runs sorts.  Every run is what a stretch of the list is sorted to: it went up all the
way, or down all the way and was turned around, or got members inserted.  The runs on the stack,
read from the oldest on, sort like the part of the list that has been seen (`Holds`).  Finding a
run and merging two neighbours keep that, so it does not matter which neighbours are merged when:
powers, least lengths and patience have no part in it.

Main statement: where the comparison decides as a total one on all members, merging runs puts
them in its order, and members that compare equal stay as they stood (`sort_eq`).
-/
import Gridbook.Proofs.Sorting.Merging

namespace Gridbook.Runs

variable {α ε : Type} {cmp : α → α → Ordering} {S : α → Prop} {less : Less α ε}

/-! ### Finding runs -/

section Finding

variable [Std.TransCmp cmp]

/-- Going on as before, up or down, is transitive. -/
theorem lt_trans_eq {down : Bool} {a b c : α} (hab : (cmp b a == .lt) = down)
    (hbc : (cmp c b == .lt) = down) : (cmp c a == .lt) = down := by
  cases down with
  | true => exact beq_iff_eq.2 (Std.TransCmp.lt_trans (beq_iff_eq.1 hbc) (beq_iff_eq.1 hab))
  | false =>
    exact not_lt_iff.2 (Std.TransCmp.isLE_trans (not_lt_iff.1 hab) (not_lt_iff.1 hbc))

/-- A stretch goes on with members that all go on as the first two did. -/
theorem exists_extend (hless : Decides less cmp S) (down : Bool) {last : α} (hlast : S last)
    {as : List α} (has : ∀ a ∈ as, S a) :
    ∃ run rest, extend less down last as = .ok (run, rest) ∧ run ++ rest = as ∧
      (last :: run).Pairwise fun a b => (cmp b a == .lt) = down := by
  induction as generalizing last with
  | nil => exact ⟨[], [], rfl, rfl, List.pairwise_singleton _ _⟩
  | cons a as ih =>
    obtain ⟨ha, has⟩ := List.forall_mem_cons.1 has
    rw [extend, hless a last ha hlast]
    by_cases hdown : (cmp a last == .lt) = down
    · obtain ⟨run, rest, hrun, happend, horder⟩ := ih ha has
      refine ⟨a :: run, rest, ?_, congrArg (a :: ·) happend, List.pairwise_cons.2 ⟨?_, horder⟩⟩
      · refine (if_pos (beq_iff_eq.2 hdown)).trans ?_
        rw [hrun]
        rfl
      · intro b hb
        rcases List.mem_cons.1 hb with rfl | hb
        · exact hdown
        · exact lt_trans_eq hdown (List.rel_of_pairwise_cons horder hb)
    · exact ⟨[], a :: as, if_neg (mt beq_iff_eq.1 hdown), rfl, List.pairwise_singleton _ _⟩

/-- The run at the start of a list is what a first part of it is sorted to. -/
theorem exists_firstRun (hless : Decides less cmp S) {as : List α} (has : ∀ a ∈ as, S a)
    (hne : as ≠ []) : ∃ front rest, firstRun less as = .ok (sortWith cmp front, rest) ∧
      front ++ rest = as ∧ front ≠ [] := by
  rcases as with _ | ⟨a, _ | ⟨b, as⟩⟩
  · exact absurd rfl hne
  · exact ⟨[a], [], rfl, rfl, List.cons_ne_nil a []⟩
  obtain ⟨ha, hb, has⟩ : S a ∧ S b ∧ ∀ c ∈ as, S c := by simpa using has
  obtain ⟨run, rest, hrun, happend, horder⟩ := exists_extend hless (cmp b a == .lt) hb has
  refine ⟨a :: b :: run, rest, ?_, congrArg (a :: b :: ·) happend, List.cons_ne_nil _ _⟩
  rw [firstRun, hless b a hb ha]
  refine Outcome.bind_eq_ok.2 ⟨_, rfl, Outcome.bind_eq_ok.2 ⟨_, hrun, ?_⟩⟩
  -- the first two members go the same way as the rest
  have hall : (a :: b :: run).Pairwise fun c d => (cmp d c == .lt) = (cmp b a == .lt) := by
    refine List.pairwise_cons.2 ⟨fun c hc => ?_, horder⟩
    rcases List.mem_cons.1 hc with rfl | hc
    · rfl
    · exact lt_trans_eq rfl (List.rel_of_pairwise_cons horder hc)
  cases hdown : cmp b a == .lt with
  | true =>
    rw [hdown] at hall
    rw [sortWith_of_descending (hall.imp beq_iff_eq.1)]
    rfl
  | false =>
    rw [hdown] at hall
    rw [sortWith_of_inOrder (hall.imp not_lt_iff.1)]
    rfl

variable [Inhabited α]

/-- A member is inserted where it is sorted to, behind its equals. -/
theorem exists_insert (hless : Decides less cmp S) {run : Array α} {a : α} {front : List α}
    (hrun : run.toList = sortWith cmp front) (hfront : ∀ b ∈ front, S b) (ha : S a) :
    ∃ next, insert less run a = .ok next ∧ next.toList = sortWith cmp (front ++ [a]) := by
  have horder : InOrder cmp run.toList := hrun ▸ inOrder_sortWith front
  have hmembers : ∀ b ∈ run.toList, S b := fun b hb => hfront b (mem_sortWith.1 (hrun ▸ hb))
  have hplace : bisect (fun i => (less a (run.getD i default)).map (!·)) (run.size + 1) 0 run.size =
      .ok (upTo cmp a run.toList).length :=
    bisect_eq (fun i _ hi => ask_upTo hless ha hmembers horder i hi) (Nat.zero_le _)
      (List.takeWhile_prefix _).length_le (by omega)
  refine ⟨_, Outcome.bind_eq_ok.2 ⟨_, hplace, rfl⟩, ?_⟩
  obtain ⟨hbefore, hbehind⟩ := forall_upTo horder a
  have hsplit := List.take_append_drop (upTo cmp a run.toList).length run.toList
  have hinsert := sortWith_insert (hsplit.symm ▸ horder) hbefore hbehind
  have halike : SortAlike cmp (run.toList ++ [a]) (front ++ [a]) :=
    (hrun ▸ sortAlike_sortWith front).append (.refl [a])
  rw [hsplit, halike.sortWith_eq] at hinsert
  rw [Array.toList_append, Array.toList_append, toList_extract_front, toList_extract_back, hinsert]

/-- Members are inserted one after another. -/
theorem exists_insertAll (hless : Decides less cmp S) {run : Array α} {front as : List α}
    (hrun : run.toList = sortWith cmp front) (hfront : ∀ b ∈ front, S b) (has : ∀ a ∈ as, S a) :
    ∃ next, as.foldlM (insert less) run = .ok next ∧ next.toList = sortWith cmp (front ++ as) := by
  induction as generalizing run front with
  | nil => exact ⟨run, rfl, by rw [List.append_nil, hrun]⟩
  | cons a as ih =>
    obtain ⟨ha, has⟩ := List.forall_mem_cons.1 has
    obtain ⟨mid, hmid, hsorted⟩ := exists_insert hless hrun hfront ha
    obtain ⟨next, hnext, hall⟩ := ih hsorted (List.forall_mem_append.2
      ⟨hfront, List.forall_mem_singleton.2 ha⟩) has
    refine ⟨next, ?_, by rw [hall, List.append_assoc, List.singleton_append]⟩
    rw [List.foldlM_cons]
    exact Outcome.bind_eq_ok.2 ⟨mid, hmid, hnext⟩

/-- The next run is what the next part of a list is sorted to. -/
theorem exists_nextRun (hless : Decides less cmp S) (least : Nat) {as : List α}
    (has : ∀ a ∈ as, S a) (hne : as ≠ []) :
    ∃ run front rest, nextRun less least as = .ok (run, rest) ∧
      front ++ rest = as ∧ front ≠ [] ∧ run.toList = sortWith cmp front := by
  obtain ⟨front, rest, hrun, rfl, hfront⟩ := exists_firstRun hless has hne
  obtain ⟨hS, hrest⟩ := List.forall_mem_append.1 has
  have hmissing : ∀ k, ∀ a ∈ rest.take k, S a := fun k a ha => hrest a (List.mem_of_mem_take ha)
  have hfirst : (sortWith cmp front).toArray.toList = sortWith cmp front := rfl
  obtain ⟨run, hinsert, hsorted⟩ := exists_insertAll hless hfirst hS
    (hmissing (least - (sortWith cmp front).length))
  refine ⟨run, front ++ rest.take (least - (sortWith cmp front).length), _,
    Outcome.bind_eq_ok.2 ⟨_, hrun, Outcome.bind_eq_ok.2 ⟨run, hinsert, rfl⟩⟩, ?_,
    List.append_ne_nil_of_left_ne_nil hfront _, hsorted⟩
  rw [List.append_assoc, List.take_append_drop]

end Finding

/-! ### The stack of runs -/

/-- What the runs of a stack contain, read from the oldest run on. -/
def content (runs : List (Waiting α)) : List α :=
  runs.reverse.flatMap (·.run.toList)

theorem content_cons (w : Waiting α) (runs : List (Waiting α)) :
    content (w :: runs) = content runs ++ w.run.toList := by
  rw [content, List.reverse_cons, List.flatMap_append, List.flatMap_singleton]
  rfl

theorem content_append (runs rest : List (Waiting α)) :
    content (runs ++ rest) = content rest ++ content runs := by
  rw [content, List.reverse_append, List.flatMap_append]
  rfl

/-- Do these runs hold the members of a list, so that they sort like it? -/
structure Holds (cmp : α → α → Ordering) (S : α → Prop) (runs : List (Waiting α))
    (as : List α) : Prop where
  isRun : ∀ w ∈ runs, IsRun cmp S w.run
  alike : SortAlike cmp (content runs) as

variable {as front : List α} {runs rest : List (Waiting α)} {s : Stack α}

/-- One run more holds what it is sorted from, too. -/
theorem Holds.cons [Std.TransCmp cmp] (h : Holds cmp S runs as) {w : Waiting α}
    (hw : w.run.toList = sortWith cmp front) (hfront : ∀ a ∈ front, S a) (hne : front ≠ []) :
    Holds cmp S (w :: runs) (as ++ front) where
  isRun := List.forall_mem_cons.2 ⟨isRun_of_eq_sortWith hw hfront hne, h.isRun⟩
  alike := by
    rw [content_cons, hw]
    exact h.alike.append (sortAlike_sortWith front)

/-- Powers are no part of what is held. -/
theorem Holds.empower (h : Holds cmp S runs as) (power : Nat) :
    Holds cmp S (empower power runs) as := by
  cases runs with
  | nil => exact h
  | cons w rest =>
    obtain ⟨hisRun, halike⟩ := h
    rw [content_cons] at halike
    refine ⟨List.forall_mem_cons.2 (List.forall_mem_cons.1 hisRun), ?_⟩
    rwa [Runs.empower, content_cons]

/-- One run that holds a list is its sorted form. -/
theorem Holds.flatMap_eq [Std.TransCmp cmp] (h : Holds cmp S runs as) (hlength : runs.length ≤ 1) :
    runs.flatMap (·.run.toList) = sortWith cmp as := by
  rcases runs with _ | ⟨w, _ | _⟩
  · exact h.alike.eq_sortWith List.Pairwise.nil
  · have hcontent : content [w] = [w].flatMap (·.run.toList) := rfl
    rw [← hcontent]
    refine h.alike.eq_sortWith ?_
    rw [hcontent, List.flatMap_singleton]
    exact (h.isRun w List.mem_cons_self).order
  · simp at hlength

variable [Std.TransCmp cmp] [Inhabited α]

/-- Two neighbours may be merged wherever they stand. -/
theorem Holds.exists_join (later : List (Waiting α)) {a b : Waiting α}
    (h : Holds cmp S (later ++ b :: a :: rest) as) (hless : Decides less cmp S) (patience : Nat) :
    ∃ w next, join less patience a b = .ok (w, next) ∧ Holds cmp S (later ++ w :: rest) as := by
  obtain ⟨hisRun, halike⟩ := h
  obtain ⟨hlater, hpair⟩ := List.forall_mem_append.1 hisRun
  obtain ⟨hb, hpair⟩ := List.forall_mem_cons.1 hpair
  obtain ⟨ha, hrest⟩ := List.forall_mem_cons.1 hpair
  obtain ⟨run, next, hmerge, hrun⟩ := exists_merge hless ha hb patience
  have hmembers : ∀ x ∈ a.run.toList ++ b.run.toList, S x :=
    List.forall_mem_append.2 ⟨ha.members, hb.members⟩
  have hisRun : IsRun cmp S run :=
    isRun_of_eq_sortWith hrun hmembers (List.append_ne_nil_of_left_ne_nil ha.ne_nil _)
  refine ⟨{ a with run := run }, next, Outcome.bind_eq_ok.2 ⟨_, hmerge, rfl⟩, ?_, ?_⟩
  · exact List.forall_mem_append.2 ⟨hlater, List.forall_mem_cons.2 ⟨hisRun, hrest⟩⟩
  · rw [content_append, content_cons, content_cons, List.append_assoc (content rest)] at halike
    rw [content_append, content_cons]
    -- what stands before and behind the two neighbours is not touched
    have hjoined : SortAlike cmp run.toList (a.run.toList ++ b.run.toList) :=
      hrun ▸ sortAlike_sortWith _
    exact (((SortAlike.refl _).append hjoined).append (.refl _)).trans halike

/-- Settling the latest runs keeps what is held. -/
theorem Holds.exists_settle (h : Holds cmp S s.runs as) (hless : Decides less cmp S)
    (power fuel : Nat) : ∃ t, settle less power fuel s = .ok t ∧ Holds cmp S t.runs as := by
  induction fuel generalizing s with
  | zero => exact ⟨s, rfl, h⟩
  | succ fuel ih =>
    obtain ⟨_ | ⟨b, _ | ⟨a, rest⟩⟩, patience⟩ := s
    · exact ⟨_, rfl, h⟩
    · exact ⟨_, rfl, h⟩
    rw [settle]
    dsimp only
    split
    · obtain ⟨w, next, hjoin, hheld⟩ := h.exists_join [] hless patience
      obtain ⟨t, ht, hsettled⟩ := ih (s := ⟨w :: rest, next⟩) hheld
      exact ⟨t, Outcome.bind_eq_ok.2 ⟨_, hjoin, ht⟩, hsettled⟩
    · exact ⟨_, rfl, h⟩

/-- Putting a run on the stack. -/
theorem Holds.exists_push (h : Holds cmp S s.runs as) (hless : Decides less cmp S) (n start : Nat)
    {run : Array α} (hrun : run.toList = sortWith cmp front) (hfront : ∀ a ∈ front, S a)
    (hne : front ≠ []) :
    ∃ t, push less n s start run = .ok t ∧ Holds cmp S t.runs (as ++ front) := by
  obtain ⟨_ | ⟨a, rest⟩, patience⟩ := s
  · exact ⟨_, rfl, h.cons hrun hfront hne⟩
  · rw [push]
    dsimp only
    obtain ⟨t, ht, hheld⟩ := h.exists_settle hless (powerOf n (n + 64) (2 * a.start + a.run.size)
      (2 * a.start + a.run.size + a.run.size + run.size)) (a :: rest).length
    exact ⟨_, Outcome.bind_eq_ok.2 ⟨t, ht, rfl⟩, (hheld.empower _).cons hrun hfront hne⟩

/-- All runs of a list end up on the stack. -/
theorem Holds.exists_collect {bs : List α} (h : Holds cmp S s.runs bs) (hless : Decides less cmp S)
    (n least start : Nat) {fuel : Nat} (hfuel : as.length ≤ fuel) (has : ∀ a ∈ as, S a) :
    ∃ t, collect less n least fuel s start as = .ok t ∧ Holds cmp S t.runs (bs ++ as) := by
  induction fuel generalizing s start bs as with
  | zero =>
    rw [List.length_eq_zero_iff.1 (Nat.le_zero.1 hfuel), List.append_nil]
    exact ⟨s, rfl, h⟩
  | succ fuel ih =>
    rcases hlist : as with _ | ⟨a, tail⟩
    · rw [List.append_nil]
      exact ⟨s, rfl, h⟩
    rw [← hlist]
    obtain ⟨run, front, rest, hnext, happend, hne, hrun⟩ :=
      exists_nextRun hless least has (by rw [hlist]; exact List.cons_ne_nil a tail)
    subst happend
    obtain ⟨hfront, hrest⟩ := List.forall_mem_append.1 has
    obtain ⟨t, ht, hheld⟩ := h.exists_push hless n start hrun hfront hne
    -- a run has a member at least
    have hshorter : rest.length ≤ fuel := by
      have hpos := List.length_pos_of_ne_nil hne
      rw [List.length_append] at hfuel
      omega
    obtain ⟨u, hu, hall⟩ := ih hheld (start + run.size) hshorter hrest
    refine ⟨u, ?_, by rwa [← List.append_assoc]⟩
    rw [hlist] at hnext ⊢
    exact Outcome.bind_eq_ok.2 ⟨_, hnext, Outcome.bind_eq_ok.2 ⟨t, ht, hu⟩⟩

/-- In the end all runs are merged. -/
theorem Holds.exists_collapse (h : Holds cmp S s.runs as) (hless : Decides less cmp S) {fuel : Nat}
    (hfuel : s.runs.length ≤ fuel + 1) :
    ∃ t, collapse less fuel s = .ok t ∧ Holds cmp S t.runs as ∧ t.runs.length ≤ 1 := by
  induction fuel generalizing s with
  | zero => exact ⟨s, rfl, h, hfuel⟩
  | succ fuel ih =>
    obtain ⟨_ | ⟨c, _ | ⟨b, _ | ⟨a, rest⟩⟩⟩, patience⟩ := s
    · exact ⟨_, rfl, h, Nat.zero_le 1⟩
    · exact ⟨_, rfl, h, Nat.le_refl 1⟩
    · obtain ⟨w, next, hjoin, hheld⟩ := h.exists_join [] hless patience
      exact ⟨⟨[w], next⟩, Outcome.bind_eq_ok.2 ⟨_, hjoin, rfl⟩, hheld, Nat.le_refl 1⟩
    rw [collapse]
    dsimp only
    split
    · obtain ⟨w, next, hjoin, hheld⟩ := h.exists_join [c] hless patience
      obtain ⟨t, ht, hdone⟩ := ih (s := ⟨c :: w :: rest, next⟩) hheld (Nat.le_of_succ_le_succ hfuel)
      exact ⟨t, Outcome.bind_eq_ok.2 ⟨_, hjoin, ht⟩, hdone⟩
    · obtain ⟨w, next, hjoin, hheld⟩ := h.exists_join [] hless patience
      obtain ⟨t, ht, hdone⟩ := ih (s := ⟨w :: a :: rest, next⟩) hheld (Nat.le_of_succ_le_succ hfuel)
      exact ⟨t, Outcome.bind_eq_ok.2 ⟨_, hjoin, ht⟩, hdone⟩

/-- Merging runs sorts: where the comparison decides on all members, they are put in its order,
and those that compare equal stay as they stood. -/
theorem sort_eq (hless : Decides less cmp S) (has : ∀ a ∈ as, S a) :
    sort less as = .ok (sortWith cmp as) := by
  have hempty : Holds cmp S (⟨[], worthwhile⟩ : Stack α).runs [] := ⟨nofun, .refl []⟩
  obtain ⟨s, hs, hheld⟩ :=
    hempty.exists_collect hless as.length (leastRun as.length as.length 0) 0 le_rfl has
  rw [List.nil_append] at hheld
  obtain ⟨t, ht, hend, hone⟩ := hheld.exists_collapse hless (Nat.le_succ _)
  rw [← hend.flatMap_eq hone]
  exact Outcome.bind_eq_ok.2 ⟨s, hs, Outcome.bind_eq_ok.2 ⟨t, ht, rfl⟩⟩

end Gridbook.Runs
