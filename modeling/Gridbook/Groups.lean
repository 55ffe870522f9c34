/-
Gridbook/Groups.lean

Lists divided by a key.  The groups stand in the order in which their keys
first occur, and each keeps its members in their order.

Main statements: the keys are distinct and the same as before (`nodup_distinct`,
`mem_distinct`).
-/
namespace Gridbook

/-- The members of a list, each at its first place only. -/
def distinct {κ : Type} [DecidableEq κ] : List κ → List κ
  | [] => []
  | k :: ks => k :: (distinct ks).filter (· ≠ k)

theorem mem_distinct {κ : Type} [DecidableEq κ] {k : κ} {ks : List κ} :
    k ∈ distinct ks ↔ k ∈ ks := by
  induction ks with
  | nil => simp [distinct]
  | cons a ks ih =>
    by_cases h : k = a
    · simp [distinct, h]
    · simp [distinct, h, ih]

theorem nodup_distinct {κ : Type} [DecidableEq κ] (ks : List κ) : (distinct ks).Nodup := by
  induction ks with
  | nil => simp [distinct]
  | cons a ks ih =>
    rw [distinct, List.nodup_cons]
    exact ⟨by simp, ih.filter _⟩

/-- The values of each key. -/
def groups {κ α : Type} [DecidableEq κ] (pairs : List (κ × α)) : List (κ × List α) :=
  (distinct (pairs.map (·.1))).map fun k => (k, (pairs.filter (·.1 = k)).map (·.2))

end Gridbook
