/-
Gridbook/Window.lean

Parts of lists by whole numbers.  `upTo` gives the members before an end, which
counts from the end of the list when it is negative; `window` gives so many
members after so many others, where a negative number of members is no limit.

Main statement: both are contiguous parts of the list (`upTo_isPrefix`,
`window_isInfix`).
-/
namespace Gridbook

variable {α : Type}

/-- The members of a list before `limit`; a negative limit counts from the end. -/
def upTo (limit : Option Int) (xs : List α) : List α :=
  match limit with
  | none => xs
  | some n => xs.take (if n < 0 then n + xs.length else n).toNat

/-- The members of a list from `offset` on, at most `limit`; a negative limit is
none, and a negative offset is zero. -/
def window (limit offset : Int) (xs : List α) : List α :=
  let rest := xs.drop offset.toNat
  if limit < 0 then rest else rest.take limit.toNat

theorem upTo_isPrefix (limit : Option Int) (xs : List α) : upTo limit xs <+: xs := by
  unfold upTo
  split
  · exact List.prefix_refl xs
  · exact List.take_prefix _ xs

theorem window_isInfix (limit offset : Int) (xs : List α) : window limit offset xs <:+: xs := by
  unfold window
  dsimp only
  split
  · exact (List.drop_suffix _ xs).isInfix
  · exact (List.take_prefix _ _).isInfix.trans (List.drop_suffix _ xs).isInfix

end Gridbook
