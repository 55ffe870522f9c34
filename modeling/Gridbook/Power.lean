/-
Gridbook/Power.lean

Powers of two, in which doubles and machine words are measured, and of ten, in
which decimals are.

Main statements: a power is its base times the power before (`twoTo_succ`,
`tenTo_succ`), and none is zero (`twoTo_pos`, `tenTo_pos`).
-/
namespace Gridbook

/-- Two to the power of `n`. -/
def twoTo (n : Nat) : Nat :=
  Nat.pow 2 n

/-- Ten to the power of `n`. -/
def tenTo (n : Nat) : Nat :=
  Nat.pow 10 n

theorem twoTo_succ (n : Nat) : twoTo (n + 1) = twoTo n * 2 := rfl

theorem tenTo_succ (n : Nat) : tenTo (n + 1) = tenTo n * 10 := rfl

theorem twoTo_pos (n : Nat) : 0 < twoTo n :=
  Nat.pow_pos (by decide)

theorem tenTo_pos (n : Nat) : 0 < tenTo n :=
  Nat.pow_pos (by decide)

end Gridbook
