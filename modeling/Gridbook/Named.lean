/-
Gridbook/Named.lean

Lists of values by name, in an order of their own.  `put` sets the value of a
name in its place, or at the end if the name is new.

Main statements: `put` sets one name and leaves the others (`lookup_put`), and
keeps the names distinct (`nodup_put`); values that are put together from pairs
have the names of the pairs (`mem_names_ofPairs`), of each the last one
(`lookup_ofPairs_cons`).
-/
namespace Gridbook

/-- Values by name. -/
abbrev Named (α : Type) := List (String × α)

namespace Named

variable {α : Type}

/-- The names, in their order. -/
def names (named : Named α) : List String :=
  named.map (·.1)

/-- Set the value of a name: in its place, or at the end. -/
def put (name : String) (a : α) : Named α → Named α
  | [] => [(name, a)]
  | (n, b) :: rest => if n = name then (name, a) :: rest else (n, b) :: put name a rest

/-- The last value of each name, in order of the names' first places. -/
def ofPairs (pairs : List (String × α)) : Named α :=
  pairs.foldl (fun named p => named.put p.1 p.2) []

theorem lookup_cons (n m : String) (b : α) (rest : Named α) :
    List.lookup n ((m, b) :: rest) = if n = m then some b else rest.lookup n := by
  rw [List.lookup_cons]
  by_cases h : n = m
  · rw [beq_iff_eq.2 h, if_pos h]
  · rw [beq_eq_false_iff_ne.2 h, if_neg h]

theorem lookup_put (named : Named α) (name n : String) (a : α) :
    (named.put name a).lookup n = if n = name then some a else named.lookup n := by
  induction named with
  | nil => rw [put, lookup_cons]
  | cons p rest ih =>
    rw [put]
    split
    · next hm => subst hm; rw [lookup_cons, lookup_cons]; split <;> simp_all
    · next hm => rw [lookup_cons, ih, lookup_cons]; split <;> simp_all

theorem mem_names_put {named : Named α} {name n : String} {a : α} :
    n ∈ (named.put name a).names ↔ n = name ∨ n ∈ named.names := by
  induction named with
  | nil => simp [put, names]
  | cons p rest ih =>
    rw [put]
    split
    · next h => simp [names, h]
    · simp only [names, List.map_cons, List.mem_cons] at ih ⊢
      rw [ih, or_left_comm]

theorem nodup_put {named : Named α} (name : String) (a : α) (h : named.names.Nodup) :
    (named.put name a).names.Nodup := by
  induction named with
  | nil => simp [put, names]
  | cons p rest ih =>
    obtain ⟨hp, hr⟩ := List.nodup_cons.1 h
    rw [put]
    split
    · next hn => exact List.nodup_cons.2 ⟨hn ▸ hp, hr⟩
    · next hn =>
      refine List.nodup_cons.2 ⟨fun hm => ?_, ih hr⟩
      rcases mem_names_put.1 hm with h | h
      · exact hn h
      · exact hp h

theorem mem_names_foldl {pairs : List (String × α)} {named : Named α} {n : String} :
    n ∈ (pairs.foldl (fun named p => named.put p.1 p.2) named).names ↔
      n ∈ named.names ∨ n ∈ pairs.map (·.1) := by
  induction pairs generalizing named with
  | nil => simp
  | cons p pairs ih =>
    rw [List.foldl_cons, ih, mem_names_put, List.map_cons, List.mem_cons, or_comm (a := n = p.1),
      or_assoc]

theorem mem_names_ofPairs {pairs : List (String × α)} {n : String} :
    n ∈ (ofPairs pairs).names ↔ n ∈ pairs.map (·.1) := by
  rw [ofPairs, mem_names_foldl]
  simp [names]

/-- Names occur once, however often they are put. -/
theorem nodup_names_ofPairs (pairs : List (String × α)) :
    (ofPairs pairs).names.Nodup := by
  have hfold : ∀ (pairs : List (String × α)) (named : Named α), named.names.Nodup →
      (pairs.foldl (fun named p => named.put p.1 p.2) named).names.Nodup := by
    intro pairs
    induction pairs with
    | nil => exact fun named h => h
    | cons p pairs ih => exact fun named h => ih _ (nodup_put p.1 p.2 h)
  exact hfold pairs [] List.nodup_nil

theorem mem_of_mem_put {named : Named α} {name : String} {a : α} {p : String × α}
    (h : p ∈ named.put name a) : p = (name, a) ∨ p ∈ named := by
  induction named with
  | nil => exact .inl (List.mem_singleton.1 h)
  | cons q rest ih =>
    rw [put] at h
    split at h
    · rcases List.mem_cons.1 h with h | h
      · exact .inl h
      · exact .inr (List.mem_cons_of_mem q h)
    · rcases List.mem_cons.1 h with rfl | h
      · exact .inr List.mem_cons_self
      · exact (ih h).imp_right (List.mem_cons_of_mem q)

/-- Values that are put together from pairs are values of the pairs. -/
theorem mem_of_mem_ofPairs {pairs : List (String × α)} {p : String × α} (h : p ∈ ofPairs pairs) :
    p ∈ pairs := by
  have hfold : ∀ (pairs : List (String × α)) (named : Named α),
      p ∈ pairs.foldl (fun named p => named.put p.1 p.2) named → p ∈ named ∨ p ∈ pairs := by
    intro pairs
    induction pairs with
    | nil => exact fun named h => .inl h
    | cons q pairs ih =>
      intro named h
      rcases ih (named.put q.1 q.2) h with h | h
      · rcases mem_of_mem_put h with rfl | h
        · exact .inr List.mem_cons_self
        · exact .inl h
      · exact .inr (List.mem_cons_of_mem q h)
  exact (hfold pairs [] h).resolve_left List.not_mem_nil

/-- A value gives way to any later one of its name. -/
theorem lookup_ofPairs_cons (p : String × α) (pairs : List (String × α)) (n : String) :
    (ofPairs (p :: pairs)).lookup n =
      ((ofPairs pairs).lookup n).or (if n = p.1 then some p.2 else none) := by
  have hfold : ∀ (pairs : List (String × α)) (named : Named α),
      (pairs.foldl (fun named p => named.put p.1 p.2) named).lookup n =
        ((ofPairs pairs).lookup n).or (named.lookup n) := by
    intro pairs
    induction pairs with
    | nil => exact fun named => rfl
    | cons q pairs ih =>
      intro named
      have hone : (ofPairs (q :: pairs)).lookup n =
          ((ofPairs pairs).lookup n).or ((put q.1 q.2 []).lookup n) := ih _
      rw [List.foldl_cons, ih, hone, Option.or_assoc, lookup_put, lookup_put]
      split
      · rfl
      · rfl
  rw [ofPairs, List.foldl_cons, hfold, lookup_put]
  rfl

theorem lookup_eq_none {named : Named α} {n : String} (h : n ∉ named.names) :
    named.lookup n = none := by
  rw [List.lookup_eq_none_iff]
  intro p hp
  rw [bne_iff_ne]
  rintro rfl
  exact h (List.mem_map_of_mem hp)

end Named

end Gridbook
