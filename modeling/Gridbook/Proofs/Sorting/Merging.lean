/-
Gridbook/Proofs/Sorting/Merging.lean

Merging two runs.  A merge goes upwards or downwards, takes members one by one or many at
once, and may stop before all are taken.  What it comes to never changes: the members taken,
on their side of what the rest of both runs is sorted to (`Merging.outcome`).  Upwards a left
member may be taken when no right one comes before it, and a right one when it comes before
all left ones; downwards it is the other way round (`Sound.takeLeft`, `Sound.takeRight`).

A merge that is stopped with one member left of a run puts this one behind all others
(upwards, the last left one) or before them (downwards, the first right one).  This is where
it belongs, since what was in its place already has been left out from the start
(`Sound.border`).

Main statements: two runs are cut by the places of the first member of the second one and the
last member of the first one (`exists_cut`), and merged to what they are sorted to together
(`exists_merge`).
-/
import Gridbook.Proofs.Sorting.Searching

namespace Gridbook.Runs

variable {α ε : Type}

namespace Merging

/-! ### What a merge comes to -/

/-- A list in the order of taking, as it stands in its run. -/
def standing (m : Merging α) (as : List α) : List α :=
  if m.up then as else as.reverse

theorem mem_standing {m : Merging α} {as : List α} {a : α} : a ∈ m.standing as ↔ a ∈ as := by
  unfold standing
  split
  · exact Iff.rfl
  · exact List.mem_reverse

theorem length_standing (m : Merging α) (as : List α) : (m.standing as).length = as.length := by
  unfold standing
  split
  · rfl
  · exact List.length_reverse

/-- How many members are left. -/
def size (m : Merging α) : Nat :=
  m.left.length + m.right.length

/-- The run that the merge comes to. -/
def outcome (cmp : α → α → Ordering) (m : Merging α) : List α :=
  if m.up then m.taken.reverse ++ sortWith cmp (m.standing m.left ++ m.standing m.right)
  else sortWith cmp (m.standing m.left ++ m.standing m.right) ++ m.taken

/-- Does the member that may be left over belong to the end of what is left? -/
def Bordered (cmp : α → α → Ordering) (m : Merging α) : Prop :=
  if m.up then ∀ a ∈ m.left.getLast?, ∀ b ∈ m.right, cmp b a = .lt
  else ∀ b ∈ m.right.getLast?, ∀ a ∈ m.left, cmp b a = .lt

/-- A merge of runs in order, with members of a class. -/
structure Sound (cmp : α → α → Ordering) (S : α → Prop) (m : Merging α) : Prop where
  left : ∀ a ∈ m.left, S a
  right : ∀ b ∈ m.right, S b
  leftOrder : InOrder cmp (m.standing m.left)
  rightOrder : InOrder cmp (m.standing m.right)
  border : m.Bordered cmp

/-- Does the one merge go on as the other one, and come to the same? -/
structure Follows (cmp : α → α → Ordering) (S : α → Prop) (m n : Merging α) : Prop where
  sound : n.Sound cmp S
  outcome : n.outcome cmp = m.outcome cmp

variable {cmp : α → α → Ordering} {S : α → Prop} {m n l : Merging α}

theorem Follows.trans (h : Follows cmp S l m) (h' : Follows cmp S m n) : Follows cmp S l n :=
  ⟨h'.sound, h'.outcome.trans h.outcome⟩

theorem Sound.refl (h : m.Sound cmp S) : Follows cmp S m m :=
  ⟨h, rfl⟩

/-- Patience has no part in what a merge comes to. -/
theorem Sound.withPatience (h : m.Sound cmp S) (n : Nat) :
    Follows cmp S m { m with patience := n } :=
  ⟨⟨h.left, h.right, h.leftOrder, h.rightOrder, h.border⟩, rfl⟩

/-- After a member has been taken, it may be that searching begins. -/
theorem exists_next (h : Follows cmp S m n) (hsize : n.size < m.size) (wins : Nat) (phase : Phase) :
    ∃ l next, (if !n.isOver && n.patience ≤ wins then
        ({ n with patience := n.patience + 1 }, Phase.search) else (n, phase)) = (l, next) ∧
      Follows cmp S m l ∧ l.size < m.size := by
  split
  · exact ⟨_, _, rfl, h.trans (h.sound.withPatience _), hsize⟩
  · exact ⟨_, _, rfl, h, hsize⟩

/-! ### Taking members -/

variable [Std.TransCmp cmp]

theorem mem_getLast?_of_drop {as : List α} {n : Nat} {a : α} (h : a ∈ (as.drop n).getLast?) :
    a ∈ as.getLast? := by
  rw [List.getLast?_drop] at h
  split at h
  · cases h
  · exact h

/-- Left members may be taken, upwards if no right one comes before them, and downwards if all
do. -/
theorem Sound.takeLeft (h : m.Sound cmp S) {n : Nat}
    (hn : ∀ a ∈ m.left.take n, ∀ b ∈ m.right, (cmp b a == .lt) = !m.up) :
    Follows cmp S m (m.takeLeft n) := by
  obtain ⟨up, left, right, taken, patience⟩ := m
  obtain ⟨hleft, hright, hlefts, hrights, hborder⟩ := h
  have hmembers : ∀ a ∈ left.drop n, S a := fun a ha => hleft a (List.mem_of_mem_drop ha)
  cases up with
  | true =>
    have hparts : InOrder cmp (left.take n ++ left.drop n) := by
      rw [List.take_append_drop]
      exact hlefts
    obtain ⟨htake, hdrop, hbetween⟩ := List.pairwise_append.1 hparts
    refine ⟨⟨hmembers, hright, hdrop, hrights, fun a ha => hborder a (mem_getLast?_of_drop ha)⟩, ?_⟩
    show ((left.take n).reverse ++ taken).reverse ++ sortWith cmp (left.drop n ++ right) =
      taken.reverse ++ sortWith cmp (left ++ right)
    have hsplit : sortWith cmp (left ++ right) =
        left.take n ++ sortWith cmp (left.drop n ++ right) := by
      conv_lhs => rw [← List.take_append_drop n left, List.append_assoc]
      refine sortWith_front htake fun a ha x hx => ?_
      rcases List.mem_append.1 hx with hx | hx
      · exact hbetween a ha x hx
      · exact not_lt_iff.1 (hn a ha x hx)
    rw [hsplit, List.reverse_append, List.reverse_reverse, List.append_assoc]
  | false =>
    have hparts : InOrder cmp ((left.drop n).reverse ++ (left.take n).reverse) := by
      rw [← List.reverse_append, List.take_append_drop]
      exact hlefts
    obtain ⟨hdrop, htake, hbetween⟩ := List.pairwise_append.1 hparts
    refine ⟨⟨hmembers, hright, hdrop, hrights, fun b hb a ha =>
      hborder b hb a (List.mem_of_mem_drop ha)⟩, ?_⟩
    show sortWith cmp ((left.drop n).reverse ++ right.reverse) ++ ((left.take n).reverse ++ taken) =
      sortWith cmp (left.reverse ++ right.reverse) ++ taken
    have hsplit : sortWith cmp (left.reverse ++ right.reverse) =
        sortWith cmp ((left.drop n).reverse ++ right.reverse) ++ (left.take n).reverse := by
      conv_lhs => rw [← List.take_append_drop n left, List.reverse_append]
      refine sortWith_push htake (fun a ha b hb => beq_iff_eq.1 ?_) hbetween
      exact hn a (List.mem_reverse.1 ha) b (List.mem_reverse.1 hb)
    rw [hsplit, List.append_assoc]

/-- Right members may be taken, upwards if they come before all left ones, and downwards if
before none. -/
theorem Sound.takeRight (h : m.Sound cmp S) {n : Nat}
    (hn : ∀ b ∈ m.right.take n, ∀ a ∈ m.left, (cmp b a == .lt) = m.up) :
    Follows cmp S m (m.takeRight n) := by
  obtain ⟨up, left, right, taken, patience⟩ := m
  obtain ⟨hleft, hright, hlefts, hrights, hborder⟩ := h
  have hmembers : ∀ b ∈ right.drop n, S b := fun b hb => hright b (List.mem_of_mem_drop hb)
  cases up with
  | true =>
    have hparts : InOrder cmp (right.take n ++ right.drop n) := by
      rw [List.take_append_drop]
      exact hrights
    obtain ⟨htake, hdrop, hbetween⟩ := List.pairwise_append.1 hparts
    refine ⟨⟨hleft, hmembers, hlefts, hdrop, fun a ha b hb =>
      hborder a ha b (List.mem_of_mem_drop hb)⟩, ?_⟩
    show ((right.take n).reverse ++ taken).reverse ++ sortWith cmp (left ++ right.drop n) =
      taken.reverse ++ sortWith cmp (left ++ right)
    have hsplit : sortWith cmp (left ++ right) =
        right.take n ++ sortWith cmp (left ++ right.drop n) := by
      conv_lhs => rw [← List.take_append_drop n right]
      exact sortWith_pull htake (fun b hb a ha => beq_iff_eq.1 (hn b hb a ha)) hbetween
    rw [hsplit, List.reverse_append, List.reverse_reverse, List.append_assoc]
  | false =>
    have hparts : InOrder cmp ((right.drop n).reverse ++ (right.take n).reverse) := by
      rw [← List.reverse_append, List.take_append_drop]
      exact hrights
    obtain ⟨hdrop, htake, hbetween⟩ := List.pairwise_append.1 hparts
    refine ⟨⟨hleft, hmembers, hlefts, hdrop, fun b hb => hborder b (mem_getLast?_of_drop hb)⟩, ?_⟩
    show sortWith cmp (left.reverse ++ (right.drop n).reverse) ++
      ((right.take n).reverse ++ taken) = sortWith cmp (left.reverse ++ right.reverse) ++ taken
    have hsplit : sortWith cmp (left.reverse ++ right.reverse) =
        sortWith cmp (left.reverse ++ (right.drop n).reverse) ++ (right.take n).reverse := by
      conv_lhs => rw [← List.take_append_drop n right, List.reverse_append, ← List.append_assoc]
      refine sortWith_back htake fun x hx b hb => ?_
      rcases List.mem_append.1 hx with hx | hx
      · exact not_lt_iff.1 (hn b (List.mem_reverse.1 hb) x (List.mem_reverse.1 hx))
      · exact hbetween x hx b hb
    rw [hsplit, List.append_assoc]

/-- Taking the next right member where it says of the next left one what all are asked for. -/
theorem Sound.takeRight_one {b : α} {bs : List α} (h : m.Sound cmp S) (hb : m.right = b :: bs)
    (hall : ∀ x ∈ m.left, (cmp b x == .lt) = m.up) : Follows cmp S m (m.takeRight 1) :=
  h.takeRight fun y hy x hx => by
    rw [hb] at hy
    rw [List.mem_singleton.1 hy]
    exact hall x hx

theorem Sound.takeLeft_one {a : α} {as : List α} (h : m.Sound cmp S) (ha : m.left = a :: as)
    (hall : ∀ y ∈ m.right, (cmp y a == .lt) = !m.up) : Follows cmp S m (m.takeLeft 1) :=
  h.takeLeft fun x hx y hy => by
    rw [ha] at hx
    rw [List.mem_singleton.1 hx]
    exact hall y hy

theorem size_takeLeft_le (m : Merging α) (n : Nat) : (m.takeLeft n).size ≤ m.size := by
  show (m.left.drop n).length + m.right.length ≤ m.left.length + m.right.length
  rw [List.length_drop]
  omega

theorem size_takeRight_le (m : Merging α) (n : Nat) : (m.takeRight n).size ≤ m.size := by
  show m.left.length + (m.right.drop n).length ≤ m.left.length + m.right.length
  rw [List.length_drop]
  omega

theorem size_takeLeft_lt {a : α} {as : List α} (ha : m.left = a :: as) {n : Nat} (hn : n ≠ 0) :
    (m.takeLeft n).size < m.size := by
  show (m.left.drop n).length + m.right.length < m.left.length + m.right.length
  rw [List.length_drop, ha, List.length_cons]
  omega

theorem size_takeRight_lt {b : α} {bs : List α} (hb : m.right = b :: bs) :
    (m.takeRight 1).size < m.size := by
  show m.left.length + (m.right.drop 1).length < m.left.length + m.right.length
  rw [hb]
  exact Nat.add_lt_add_left (Nat.lt_succ_self _) _

/-- Until a merge is over there is a next member on either side. -/
theorem exists_heads (h : m.isOver = false) :
    ∃ a as b bs, m.left = a :: as ∧ m.right = b :: bs := by
  obtain ⟨up, left, right, taken, patience⟩ := m
  rcases left with _ | ⟨a, as⟩
  · cases up <;> simp [isOver] at h
  rcases right with _ | ⟨b, bs⟩
  · cases up <;> simp [isOver] at h
  exact ⟨a, as, b, bs, rfl, rfl⟩

/-- A merge that is over has come to its outcome. -/
theorem Sound.result_eq (h : m.Sound cmp S) (hover : m.isOver) :
    m.result.toList = m.outcome cmp := by
  obtain ⟨up, left, right, taken, patience⟩ := m
  obtain ⟨-, -, hlefts, hrights, hborder⟩ := h
  cases up with
  | true =>
    show taken.reverse ++ right ++ left = taken.reverse ++ sortWith cmp (left ++ right)
    have hleft : sortWith cmp left = left := sortWith_of_inOrder hlefts
    have hright : sortWith cmp right = right := sortWith_of_inOrder hrights
    have hover : right = [] ∨ left.length ≤ 1 := by simpa [isOver] using hover
    rw [List.append_assoc]
    congr 1
    rcases hover with rfl | hshort
    · rw [List.append_nil, List.nil_append, hleft]
    · rcases left with _ | ⟨a, _ | _⟩
      · rw [List.nil_append, List.append_nil, hright]
      · -- all that is left of the other run comes before the last member
        have hlast : ∀ x ∈ [a], ∀ b ∈ right, cmp b x = .lt := fun x hx b hb => by
          rw [List.mem_singleton.1 hx]
          exact hborder a rfl b hb
        rw [sortWith_append_swap hlast, hright, hleft]
      · simp at hshort
  | false =>
    show right.reverse ++ left.reverse ++ taken =
      sortWith cmp (left.reverse ++ right.reverse) ++ taken
    have hleft : sortWith cmp left.reverse = left.reverse := sortWith_of_inOrder hlefts
    have hright : sortWith cmp right.reverse = right.reverse := sortWith_of_inOrder hrights
    have hover : left = [] ∨ right.length ≤ 1 := by simpa [isOver] using hover
    congr 1
    rcases hover with rfl | hshort
    · rw [List.reverse_nil, List.nil_append, List.append_nil, hright]
    · rcases right with _ | ⟨b, _ | _⟩
      · rw [List.reverse_nil, List.nil_append, List.append_nil, hleft]
      · have hfirst : ∀ a ∈ left.reverse, ∀ x ∈ [b].reverse, cmp x a = .lt := fun a ha x hx => by
          rw [List.mem_singleton.1 (List.mem_reverse.1 hx)]
          exact hborder b rfl a (List.mem_reverse.1 ha)
        rw [sortWith_append_swap hfirst, hright, hleft]
      · simp at hshort

/-! ### Searching in a merge -/

/-- The next member to take is the first one of its run upwards, and the last one downwards. -/
theorem head_of_inOrder {up : Bool} {a : α} {as : List α}
    (h : InOrder cmp (if up then a :: as else (a :: as).reverse)) :
    ∀ x ∈ a :: as, if up then (cmp a x).isLE else (cmp x a).isLE := by
  intro x hx
  have hself : (cmp a a).isLE := Ordering.isLE_of_eq_eq Std.ReflCmp.compare_self
  cases up with
  | true =>
    rcases List.mem_cons.1 hx with rfl | hx
    · exact hself
    · exact List.rel_of_pairwise_cons h hx
  | false =>
    rcases List.mem_cons.1 hx with rfl | hx
    · exact hself
    · exact List.rel_of_pairwise_cons (List.pairwise_reverse.1 h) hx

theorem Sound.left_head (h : m.Sound cmp S) {a : α} {as : List α} (ha : m.left = a :: as) :
    ∀ x ∈ m.left, if m.up then (cmp a x).isLE else (cmp x a).isLE := by
  have horder := h.leftOrder
  rw [ha] at horder ⊢
  exact head_of_inOrder horder

theorem Sound.right_head (h : m.Sound cmp S) {b : α} {bs : List α} (hb : m.right = b :: bs) :
    ∀ x ∈ m.right, if m.up then (cmp b x).isLE else (cmp x b).isLE := by
  have horder := h.rightOrder
  rw [hb] at horder ⊢
  exact head_of_inOrder horder

/-- What the next right member says of a left one, all right members say of it. -/
theorem lt_of_right_head {up : Bool} {a b y : α} (hab : (cmp b a == .lt) = !up)
    (hy : if up then (cmp b y).isLE else (cmp y b).isLE) : (cmp y a == .lt) = !up := by
  cases up with
  | true => exact not_lt_iff.2 (Std.TransCmp.isLE_trans (not_lt_iff.1 hab) hy)
  | false => exact beq_iff_eq.2 (Std.TransCmp.lt_of_isLE_of_lt hy (beq_iff_eq.1 hab))

/-- What a right member says of the next left one, it says of all left ones. -/
theorem lt_of_left_head {up : Bool} {a b y : α} (hab : (cmp b a == .lt) = up)
    (hy : if up then (cmp a y).isLE else (cmp y a).isLE) : (cmp b y == .lt) = up := by
  cases up with
  | true => exact beq_iff_eq.2 (Std.TransCmp.lt_of_lt_of_isLE (beq_iff_eq.1 hab) hy)
  | false => exact not_lt_iff.2 (Std.TransCmp.isLE_trans hy (not_lt_iff.1 hab))

/-- A search in what is left of a run tells how many members can be taken: those that pass a
test upwards, and those that fail it downwards. -/
theorem exists_run {as : List α} {p : α → Bool} {search : Array α → Nat → Except ε Nat}
    (hne : as ≠ [])
    (horder : (m.standing as).Pairwise fun a b => p b → p a)
    (hsearch : ∀ hint < as.length,
      search (m.standing as).toArray hint = .ok ((m.standing as).takeWhile p).length) :
    ∃ k, m.run as search = .ok k ∧ (∀ a ∈ as.take k, p a = m.up) ∧
      ∀ a ∈ as.drop k, p a = !m.up := by
  have hlength := List.length_pos_of_ne_nil hne
  unfold standing at horder hsearch
  unfold run
  cases hup : m.up with
  | true =>
    rw [hup] at horder hsearch
    exact ⟨_, hsearch 0 hlength, forall_take_drop horder⟩
  | false =>
    rw [hup] at horder hsearch
    have hfound := hsearch (as.length - 1) (by omega)
    obtain ⟨hpass, hfail⟩ := forall_take_drop horder
    rw [if_neg Bool.false_ne_true] at hfound hpass hfail ⊢
    refine ⟨_, Outcome.map_eq_ok.2 ⟨_, hfound, rfl⟩, fun a ha => hfail a ?_, fun a ha => hpass a ?_⟩
    · rw [List.drop_reverse]
      exact List.mem_reverse.2 ha
    · rw [List.take_reverse]
      exact List.mem_reverse.2 ha

variable [Inhabited α] {less : Less α ε} {a b : α} {as bs : List α}

/-- The left members that a search finds may be taken, and then the next right one. -/
theorem Sound.exists_leftRun (h : m.Sound cmp S) (hless : Decides less cmp S) (ha : m.left ≠ [])
    (hb : m.right = b :: bs) : ∃ k, m.leftRun less = .ok k ∧ Follows cmp S m (m.takeLeft k) ∧
      ∀ x ∈ m.left.drop k, (cmp b x == .lt) = m.up := by
  have hplace : ∀ hint < m.left.length, placeAfter less b (m.standing m.left).toArray hint =
      .ok (upTo cmp b (m.standing m.left)).length := fun hint hhint =>
    placeAfter_eq hless (h.right b (hb ▸ List.mem_cons_self))
      (fun x hx => h.left x (mem_standing.1 hx)) h.leftOrder
      (by rwa [List.size_toArray, length_standing])
  obtain ⟨k, hk, htake, hdrop⟩ := exists_run ha (pairwise_upTo h.leftOrder b) hplace
  refine ⟨k, ?_, h.takeLeft fun x hx y hy => ?_, fun x hx => Bool.not_inj (hdrop x hx)⟩
  · rw [leftRun, hb]
    exact hk
  · exact lt_of_right_head (Bool.not_eq_eq_eq_not.1 (htake x hx)) (h.right_head hb y hy)

/-- The right members that a search finds may be taken, and then the next left one. -/
theorem Sound.exists_rightRun (h : m.Sound cmp S) (hless : Decides less cmp S) (hb : m.right ≠ [])
    (ha : m.left = a :: as) : ∃ k, m.rightRun less = .ok k ∧ Follows cmp S m (m.takeRight k) ∧
      ∀ x ∈ m.right.drop k, (cmp x a == .lt) = !m.up := by
  have hplace : ∀ hint < m.right.length, placeBefore less a (m.standing m.right).toArray hint =
      .ok (before cmp a (m.standing m.right)).length := fun hint hhint =>
    placeBefore_eq hless (h.left a (ha ▸ List.mem_cons_self))
      (fun x hx => h.right x (mem_standing.1 hx)) h.rightOrder
      (by rwa [List.size_toArray, length_standing])
  obtain ⟨k, hk, htake, hdrop⟩ := exists_run hb (pairwise_before h.rightOrder a) hplace
  refine ⟨k, ?_, h.takeRight fun x hx y hy => ?_, hdrop⟩
  · rw [rightRun, ha]
    exact hk
  · exact lt_of_left_head (htake x hx) (h.left_head ha y hy)

/-! ### Steps -/

/-- Taking one member goes on with the merge. -/
theorem Sound.exists_single (h : m.Sound cmp S) (hless : Decides less cmp S)
    (hover : m.isOver = false) (wins wins' : Nat) :
    ∃ n phase, single less m wins wins' = .ok (n, phase) ∧ Follows cmp S m n ∧
      n.size < m.size := by
  obtain ⟨a, as, b, bs, ha, hb⟩ := exists_heads hover
  have hask : less b a = .ok (cmp b a == .lt) :=
    hless b a (h.right b (hb ▸ List.mem_cons_self)) (h.left a (ha ▸ List.mem_cons_self))
  unfold single
  rw [ha, hb]
  cases hfrom : (cmp b a == .lt) == m.up with
  | true =>
    have hall : ∀ x ∈ m.left, (cmp b x == .lt) = m.up := fun x hx =>
      lt_of_left_head (beq_iff_eq.1 hfrom) (h.left_head ha x hx)
    obtain ⟨n, phase, hnext, hfollows, hsize⟩ :=
      exists_next (h.takeRight_one hb hall) (size_takeRight_lt hb) (wins' + 1)
        (.single 0 (wins' + 1))
    refine ⟨n, phase, Outcome.bind_eq_ok.2 ⟨_, hask, ?_⟩, hfollows, hsize⟩
    exact (if_pos hfrom).trans (congrArg Except.ok hnext)
  | false =>
    have hnot : (cmp b a == .lt) = !m.up := Bool.eq_not_of_ne (beq_eq_false_iff_ne.1 hfrom)
    have hall : ∀ y ∈ m.right, (cmp y a == .lt) = !m.up := fun y hy =>
      lt_of_right_head hnot (h.right_head hb y hy)
    obtain ⟨n, phase, hnext, hfollows, hsize⟩ :=
      exists_next (h.takeLeft_one ha hall) (size_takeLeft_lt ha Nat.one_ne_zero) (wins + 1)
        (.single (wins + 1) 0)
    refine ⟨n, phase, Outcome.bind_eq_ok.2 ⟨_, hask, ?_⟩, hfollows, hsize⟩
    exact (if_neg (by rw [hfrom]; decide)).trans (congrArg Except.ok hnext)

/-- The second half of a search: the right members that it finds, and the next left one. -/
theorem Sound.exists_searchRight (h : m.Sound cmp S) (hless : Decides less cmp S)
    (hover : m.isOver = false) (c : Nat → Prop) [DecidablePred c] :
    ∃ n phase, (do
      let l ← m.rightRun less
      if (m.takeRight l).isOver then return (m.takeRight l, Phase.search)
      else if c l then return ((m.takeRight l).takeLeft 1, .search)
      else
        let n := (m.takeRight l).takeLeft 1
        return ({ n with patience := n.patience + 1 }, .single 0 0)) = .ok (n, phase) ∧
      Follows cmp S m n ∧ n.size ≤ m.size := by
  obtain ⟨a, as, b, bs, ha, hb⟩ := exists_heads hover
  obtain ⟨l, hl, hright, hrest⟩ :=
    h.exists_rightRun hless (by rw [hb]; exact List.cons_ne_nil b bs) ha
  have hsize := size_takeRight_le m l
  by_cases hend : (m.takeRight l).isOver
  · exact ⟨_, _, Outcome.bind_eq_ok.2 ⟨l, hl, if_pos hend⟩, hright, hsize⟩
  have hleft : Follows cmp S m ((m.takeRight l).takeLeft 1) :=
    hright.trans (hright.sound.takeLeft_one ha hrest)
  have hsize := (size_takeLeft_le (m.takeRight l) 1).trans hsize
  by_cases hc : c l
  · exact ⟨_, _, Outcome.bind_eq_ok.2 ⟨l, hl, (if_neg hend).trans (if_pos hc)⟩, hleft, hsize⟩
  · exact ⟨_, _, Outcome.bind_eq_ok.2 ⟨l, hl, (if_neg hend).trans (if_neg hc)⟩,
      hleft.trans (hleft.sound.withPatience _), hsize⟩

/-- Taking what a search finds goes on with the merge. -/
theorem Sound.exists_search (h : m.Sound cmp S) (hless : Decides less cmp S)
    (hover : m.isOver = false) :
    ∃ n phase, search less m = .ok (n, phase) ∧ Follows cmp S m n ∧ n.size < m.size := by
  obtain ⟨l, hl, hpatience, hgoing, hsize⟩ : ∃ l : Merging α,
      (if 1 < m.patience then { m with patience := m.patience - 1 } else m) = l ∧
        Follows cmp S m l ∧ l.isOver = false ∧ l.size = m.size := by
    split
    · exact ⟨_, rfl, h.withPatience _, hover, rfl⟩
    · exact ⟨m, rfl, h.refl, hover, rfl⟩
  unfold search
  dsimp only
  rw [hl, ← hsize]
  obtain ⟨a, as, b, bs, ha, hb⟩ := exists_heads hgoing
  obtain ⟨k, hk, hleft, hrest⟩ :=
    hpatience.sound.exists_leftRun hless (by rw [ha]; exact List.cons_ne_nil a as) hb
  by_cases hend : (l.takeLeft k).isOver
  · -- the merge was going on, so at least one member has been taken
    have hk0 : k ≠ 0 := by
      rintro rfl
      exact Bool.false_ne_true (hgoing.symm.trans hend)
    exact ⟨_, _, Outcome.bind_eq_ok.2 ⟨k, hk, if_pos hend⟩, hpatience.trans hleft,
      size_takeLeft_lt ha hk0⟩
  have hright : Follows cmp S m ((l.takeLeft k).takeRight 1) :=
    hpatience.trans (hleft.trans (hleft.sound.takeRight_one hb hrest))
  have hless' : ((l.takeLeft k).takeRight 1).size < l.size :=
    (size_takeRight_lt (m := l.takeLeft k) hb).trans_le (size_takeLeft_le l k)
  by_cases hend' : ((l.takeLeft k).takeRight 1).isOver
  · exact ⟨_, _, Outcome.bind_eq_ok.2 ⟨k, hk, (if_neg hend).trans (if_pos hend')⟩, hright, hless'⟩
  obtain ⟨n, phase, hn, hfollows, hle⟩ := hright.sound.exists_searchRight hless
    (Bool.eq_false_iff.2 hend') fun i =>
      (((((l.takeLeft k).takeRight 1).takeRight i).takeLeft 1).isOver ||
        decide (worthwhile ≤ k) || decide (worthwhile ≤ i)) = true
  exact ⟨n, phase, Outcome.bind_eq_ok.2 ⟨k, hk, (if_neg hend).trans ((if_neg hend').trans hn)⟩,
    hright.trans hfollows, hle.trans_lt hless'⟩

/-- A merge with steps enough is over in the end. -/
theorem Sound.exists_finish (h : m.Sound cmp S) (hless : Decides less cmp S) {fuel : Nat}
    (hfuel : m.size ≤ fuel) (phase : Phase) :
    ∃ n, finish less fuel m phase = .ok n ∧ Follows cmp S m n ∧ n.isOver = true := by
  induction fuel generalizing m phase with
  | zero =>
    refine ⟨m, rfl, h.refl, Bool.of_not_eq_false fun hover => ?_⟩
    obtain ⟨a, as, b, bs, ha, hb⟩ := exists_heads hover
    have hlt := size_takeLeft_lt ha Nat.one_ne_zero
    omega
  | succ fuel ih =>
    rw [finish]
    cases hover : m.isOver with
    | true => exact ⟨m, rfl, h.refl, hover⟩
    | false =>
      -- in either phase a step takes a member, so what is left needs less fuel
      have hgo : ∀ {step : Except ε (Merging α × Phase)},
          (∃ n phase, step = .ok (n, phase) ∧ Follows cmp S m n ∧ n.size < m.size) →
          ∃ n, (step >>= fun next => finish less fuel next.1 next.2) = .ok n ∧
            Follows cmp S m n ∧ n.isOver = true := by
        rintro step ⟨n, next, hstep, hfollows, hsize⟩
        obtain ⟨l, hfinish, hrest, hend⟩ := ih hfollows.sound (by omega) next
        exact ⟨l, Outcome.bind_eq_ok.2 ⟨(n, next), hstep, hfinish⟩, hfollows.trans hrest, hend⟩
      cases phase with
      | single left right => exact hgo (h.exists_single hless hover left right)
      | search => exact hgo (h.exists_search hless hover)

end Merging

/-! ### Two runs -/

/-- Is it a run: some members of a class, in order? -/
structure IsRun (cmp : α → α → Ordering) (S : α → Prop) (run : Array α) : Prop where
  members : ∀ a ∈ run.toList, S a
  order : InOrder cmp run.toList
  ne_nil : run.toList ≠ []

variable {cmp : α → α → Ordering} {S : α → Prop} {a b : Array α}

theorem IsRun.size_pos (h : IsRun cmp S a) : 0 < a.size :=
  List.length_pos_of_ne_nil h.ne_nil

theorem toList_extract_front (a : Array α) (i : Nat) :
    (a.extract 0 i).toList = a.toList.take i := by
  rw [Array.toList_extract, List.extract_eq_take_drop, List.drop_zero, Nat.sub_zero]

theorem toList_extract_back (a : Array α) (i : Nat) :
    (a.extract i a.size).toList = a.toList.drop i := by
  rw [Array.toList_extract, List.extract_eq_take_drop]
  exact List.take_of_length_le List.length_drop.le

/-- What some members are sorted to is a run. -/
theorem isRun_of_eq_sortWith [Std.TransCmp cmp] {as : List α} (h : a.toList = sortWith cmp as)
    (hS : ∀ x ∈ as, S x) (hne : as ≠ []) : IsRun cmp S a where
  members x hx := hS x (mem_sortWith.1 (h ▸ hx))
  order := h ▸ inOrder_sortWith as
  ne_nil hnil := by
    have hperm : (sortWith cmp as).Perm as := perm_sortWith as
    rw [← h, hnil] at hperm
    exact hne hperm.nil_eq.symm

variable [Inhabited α]

theorem IsRun.head?_eq (h : IsRun cmp S a) : a.toList.head? = some (a.getD 0 default) := by
  rw [getD_eq h.size_pos, List.head?_eq_getElem?]
  exact List.getElem?_eq_getElem h.size_pos

theorem IsRun.getLast?_eq (h : IsRun cmp S a) :
    a.toList.getLast? = some (a.getD (a.size - 1) default) := by
  rw [getD_eq (Nat.sub_one_lt h.size_pos.ne'), List.getLast?_eq_getElem?]
  exact List.getElem?_eq_getElem _

variable [Std.TransCmp cmp] {less : Less α ε}

/-- The first member of a run comes behind none. -/
theorem IsRun.first_isLE (h : IsRun cmp S a) :
    S (a.getD 0 default) ∧ ∀ x ∈ a.toList, (cmp (a.getD 0 default) x).isLE := by
  rw [getD_eq h.size_pos]
  refine ⟨h.members _ (List.getElem_mem _), fun x hx => ?_⟩
  obtain ⟨i, hi, rfl⟩ := List.mem_iff_getElem.1 hx
  exact isLE_getElem h.order (Nat.zero_le i) hi

/-- No member of a run comes behind the last one. -/
theorem IsRun.isLE_last (h : IsRun cmp S a) : S (a.getD (a.size - 1) default) ∧
    ∀ x ∈ a.toList, (cmp x (a.getD (a.size - 1) default)).isLE := by
  have hlast : a.size - 1 < a.size := Nat.sub_one_lt h.size_pos.ne'
  rw [getD_eq hlast]
  refine ⟨h.members _ (List.getElem_mem _), fun x hx => ?_⟩
  obtain ⟨i, hi, rfl⟩ := List.mem_iff_getElem.1 hx
  exact isLE_getElem h.order (Nat.le_sub_one_of_lt hi) hlast

/-- What is left of two runs, when what is in its place already has been left out, is merged
to what it is sorted to. -/
theorem exists_finish_begun (hless : Decides less cmp S) {left right : List α} {x y : α}
    (hleft : ∀ a ∈ left, S a) (hright : ∀ b ∈ right, S b) (hleftOrder : InOrder cmp left)
    (hrightOrder : InOrder cmp right) (hlast : left.getLast? = some x)
    (hfirst : right.head? = some y) (hx : ∀ b ∈ right, cmp b x = .lt)
    (hy : ∀ a ∈ left, cmp y a = .lt) (patience fuel : Nat)
    (hfuel : left.length + right.length ≤ fuel) :
    ∃ n : Merging α, finish less fuel
        (if left.length ≤ right.length then (Merging.mk true left right [] patience).takeRight 1
          else (Merging.mk false left.reverse right.reverse [] patience).takeLeft 1)
        (.single 0 0) = .ok n ∧ n.result.toList = sortWith cmp (left ++ right) := by
  split
  · -- upwards, `y` is known to be the first of all
    let m : Merging α := ⟨true, left, right, [], patience⟩
    have hsound : m.Sound cmp S := ⟨hleft, hright, hleftOrder, hrightOrder, fun a ha b hb => by
      cases hlast.symm.trans ha
      exact hx b hb⟩
    obtain ⟨rest, hcons⟩ := List.head?_eq_some_iff.1 hfirst
    have hbegun : Merging.Follows cmp S m (m.takeRight 1) :=
      hsound.takeRight_one hcons fun a ha => beq_iff_eq.2 (hy a ha)
    have hsize := Merging.size_takeRight_le m 1
    obtain ⟨n, hn, hfollows, hover⟩ :=
      hbegun.sound.exists_finish hless (hsize.trans hfuel) (.single 0 0)
    exact ⟨n, hn, (hfollows.sound.result_eq hover).trans (hbegun.trans hfollows).outcome⟩
  · -- downwards, `x` is known to be the last of all
    let m : Merging α := ⟨false, left.reverse, right.reverse, [], patience⟩
    have hself : ∀ as : List α, m.standing as.reverse = as := fun as => List.reverse_reverse as
    have hsound : m.Sound cmp S :=
      ⟨fun a ha => hleft a (List.mem_reverse.1 ha), fun b hb => hright b (List.mem_reverse.1 hb),
        (hself left).symm ▸ hleftOrder, (hself right).symm ▸ hrightOrder, fun b hb a ha => by
          cases hfirst.symm.trans (List.getLast?_reverse.symm.trans hb)
          exact hy a (List.mem_reverse.1 ha)⟩
    obtain ⟨rest, hcons⟩ := List.head?_eq_some_iff.1 (List.head?_reverse.trans hlast)
    have hbegun : Merging.Follows cmp S m (m.takeLeft 1) :=
      hsound.takeLeft_one hcons fun b hb => beq_iff_eq.2 (hx b (List.mem_reverse.1 hb))
    have hsize : (m.takeLeft 1).size ≤ left.length + right.length := by
      refine (Merging.size_takeLeft_le m 1).trans (le_of_eq ?_)
      show left.reverse.length + right.reverse.length = _
      rw [List.length_reverse, List.length_reverse]
    obtain ⟨n, hn, hfollows, hover⟩ :=
      hbegun.sound.exists_finish hless (hsize.trans hfuel) (.single 0 0)
    refine ⟨n, hn, ?_⟩
    rw [hfollows.sound.result_eq hover, (hbegun.trans hfollows).outcome]
    show sortWith cmp (m.standing left.reverse ++ m.standing right.reverse) ++ [] = _
    rw [hself, hself, List.append_nil]

/-- What of two runs has to be merged: from `start` on of the first one, and up to `stop` of the
second one.  The rest is in its place already. -/
structure Cut (cmp : α → α → Ordering) (a b : Array α) (start stop : Nat) : Prop where
  start_le : start ≤ a.size
  front : ∀ c ∈ a.toList.take start, ∀ d ∈ b.toList, (cmp c d).isLE
  back : ∀ c ∈ a.toList, ∀ d ∈ b.toList.drop stop, (cmp c d).isLE
  left : ∀ c ∈ a.toList.drop start, cmp (b.getD 0 default) c = .lt
  right : ∀ d ∈ b.toList.take stop, cmp d (a.getD (a.size - 1) default) = .lt

/-- The places of the first and the last member in the other run cut both runs. -/
theorem exists_cut (hless : Decides less cmp S) (ha : IsRun cmp S a) (hb : IsRun cmp S b) :
    ∃ start stop, placeAfter less (b.getD 0 default) a 0 = .ok start ∧
      placeBefore less (a.getD (a.size - 1) default) b (b.size - 1) = .ok stop ∧
      Cut cmp a b start stop := by
  obtain ⟨hfirst, hfirstb⟩ := hb.first_isLE
  obtain ⟨hlast, hlasta⟩ := ha.isLE_last
  obtain ⟨hstay, hleft⟩ := forall_upTo ha.order (b.getD 0 default)
  obtain ⟨hright, hstay'⟩ := forall_before hb.order (a.getD (a.size - 1) default)
  refine ⟨_, _, placeAfter_eq hless hfirst ha.members ha.order ha.size_pos,
    placeBefore_eq hless hlast hb.members hb.order (Nat.sub_one_lt hb.size_pos.ne'),
    (List.takeWhile_prefix _).length_le, fun c hc d hd => ?_, fun c hc d hd => ?_, hleft, hright⟩
  · exact Std.TransCmp.isLE_trans (hstay c hc) (hfirstb d hd)
  · exact Std.TransCmp.isLE_trans (hlasta c hc) (hstay' d hd)

variable {start stop : Nat}

/-- Where nothing is left of one run, both are in order one after the other. -/
theorem Cut.append_eq (h : Cut cmp a b start stop) (ha : IsRun cmp S a) (hb : IsRun cmp S b)
    (hnone : start = a.size ∨ stop = 0) :
    (a ++ b).toList = sortWith cmp (a.toList ++ b.toList) := by
  have hle : ∀ c ∈ a.toList, ∀ d ∈ b.toList, (cmp c d).isLE := by
    rcases hnone with rfl | rfl
    · have htake : a.toList.take a.size = a.toList := List.take_length
      exact htake ▸ h.front
    · exact h.back
  rw [Array.toList_append, sortWith_append hle, sortWith_of_inOrder ha.order,
    sortWith_of_inOrder hb.order]

/-- What is cut off on either side stays where it is. -/
theorem Cut.sortWith_eq (h : Cut cmp a b start stop) (ha : IsRun cmp S a) (hb : IsRun cmp S b) :
    sortWith cmp (a.toList ++ b.toList) = a.toList.take start ++
      sortWith cmp (a.toList.drop start ++ b.toList.take stop) ++ b.toList.drop stop := by
  have ha := ha.order
  have hb := hb.order
  have hfront := h.front
  have hback := h.back
  rw [← List.take_append_drop start a.toList] at ha hback
  rw [← List.take_append_drop stop b.toList] at hb hfront
  conv_lhs => rw [← List.take_append_drop start a.toList, ← List.take_append_drop stop b.toList]
  exact sortWith_between ha hb hfront hback

/-- Two runs are merged to what they are sorted to together. -/
theorem exists_merge (hless : Decides less cmp S) (ha : IsRun cmp S a) (hb : IsRun cmp S b)
    (patience : Nat) : ∃ run next, merge less patience a b = .ok (run, next) ∧
      run.toList = sortWith cmp (a.toList ++ b.toList) := by
  obtain ⟨start, stop, hstart, hstop, hcut⟩ := exists_cut hless ha hb
  by_cases hall : start = a.size
  · exact ⟨_, _, Outcome.bind_eq_ok.2 ⟨start, hstart, if_pos hall⟩,
      hcut.append_eq ha hb (.inl hall)⟩
  by_cases hnone : stop = 0
  · exact ⟨_, _, Outcome.bind_eq_ok.2 ⟨start, hstart, (if_neg hall).trans
      (Outcome.bind_eq_ok.2 ⟨stop, hstop, if_pos hnone⟩)⟩, hcut.append_eq ha hb (.inr hnone)⟩
  -- members are left on both sides: the last one of the first run, and the first one of the second
  have hlast : (a.toList.drop start).getLast? = some (a.getD (a.size - 1) default) := by
    rw [List.getLast?_drop, Array.length_toList,
      if_neg (Nat.not_le.2 (Nat.lt_of_le_of_ne hcut.start_le hall))]
    exact ha.getLast?_eq
  have hfirst : (b.toList.take stop).head? = some (b.getD 0 default) := by
    rw [List.head?_take, if_neg hnone]
    exact hb.head?_eq
  obtain ⟨n, hn, hresult⟩ := exists_finish_begun hless
    (fun c hc => ha.members c (List.mem_of_mem_drop hc))
    (fun d hd => hb.members d (List.mem_of_mem_take hd))
    (ha.order.sublist (List.drop_sublist _ _)) (hb.order.sublist (List.take_sublist _ _))
    hlast hfirst hcut.right hcut.left patience (a.size + b.size)
    (Nat.add_le_add (List.drop_sublist _ _).length_le (List.take_sublist _ _).length_le)
  rw [← toList_extract_back, ← toList_extract_front] at hn
  refine ⟨_, n.patience, Outcome.bind_eq_ok.2 ⟨start, hstart, (if_neg hall).trans
    (Outcome.bind_eq_ok.2 ⟨stop, hstop, (if_neg hnone).trans
      (Outcome.bind_eq_ok.2 ⟨n, hn, rfl⟩)⟩)⟩, ?_⟩
  rw [Array.toList_append, Array.toList_append, toList_extract_front, toList_extract_back, hresult,
    hcut.sortWith_eq ha hb]

end Gridbook.Runs
