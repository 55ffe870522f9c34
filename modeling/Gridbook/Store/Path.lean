/-
Gridbook/Store/Path.lean

Paths into a stored row.  A column is addressed by the path `$."name"`, and the
store reads that text step by step: a key in quotes or a bare key, an element of
a list by its number, or by its distance from the end.  So a name with a quote
in it spells more than one step, and what is left over may be no path at all.

A key is compared with the escaped text of the stored names.  The store reads
the path up to the first NUL.
-/
import Gridbook.Json.Write
import Gridbook.Power

namespace Gridbook

/-- Why a statement has no result. -/
inductive Store.Failure where
  /-- A value does not fit the store's words. -/
  | overflow
  /-- The store refuses the statement or stumbles over a row. -/
  | failed
deriving Repr, DecidableEq

namespace Path

/-- One step into a stored value. -/
inductive Step where
  | key (name : List Char)
  /-- A key that is empty or not closed. -/
  | brokenKey
  | index (n : Nat)
  /-- The element `n` places before the end, counted from the place after the
  last one; the bracket may be missing. -/
  | fromEnd (n : Nat) (closed : Bool)
  /-- What starts no step. -/
  | broken
deriving Repr, DecidableEq

/-- The text of a column's path. -/
def text (column : String) : String :=
  "$.\"" ++ column ++ "\""

/-! ### Reading a path -/

/-- Numbers in a path wrap around like 32-bit words. -/
def wordValue (digits : List Char) : Nat :=
  digits.foldl (fun n c => 10 * n + (c.toNat - '0'.toNat)) 0 % twoTo 32

/-- A distance from the end, after the `#`, and what follows. -/
def distance (cs : List Char) : Nat × List Char :=
  match cs with
  | '-' :: more =>
    if more.takeWhile Char.isDigit = [] then (0, cs)
    else (wordValue (more.takeWhile Char.isDigit), more.dropWhile Char.isDigit)
  | _ => (0, cs)

/-- A step in brackets, after the opening one, and what follows. -/
def bracketStep (cs : List Char) : Step × List Char :=
  match cs.takeWhile Char.isDigit, cs.dropWhile Char.isDigit with
  | d :: ds, ']' :: rest => (.index (wordValue (d :: ds)), rest)
  | _, _ =>
    match cs with
    | '#' :: more =>
      match distance more with
      | (n, ']' :: rest) => (.fromEnd n true, rest)
      | (n, _) => (.fromEnd n false, [])
    | _ => (.broken, [])

/-- A step by key, after the point, and what follows. -/
def keyStep (cs : List Char) : Step × List Char :=
  match cs with
  | '"' :: more =>
    match more.dropWhile (· != '"') with
    | [] => (.brokenKey, [])
    | _ :: rest => (.key (more.takeWhile (· != '"')), rest)
  | _ =>
    let inKey (c : Char) : Bool := c != '.' && c != '['
    match cs.takeWhile inKey with
    | [] => (.brokenKey, [])
    | name => (.key name, cs.dropWhile inKey)

/-- One step and what follows, for a text that is not empty. -/
def nextStep (c : Char) (cs : List Char) : Step × List Char :=
  if c = '.' then keyStep cs
  else if c = '[' then bracketStep cs
  else (.broken, [])

theorem length_dropWhile_le (p : Char → Bool) (cs : List Char) :
    (cs.dropWhile p).length ≤ cs.length :=
  (List.dropWhile_suffix p).length_le

theorem length_distance_le (cs : List Char) : (distance cs).2.length ≤ cs.length := by
  unfold distance
  split
  · split
    · simp
    · next more _ =>
      have := length_dropWhile_le Char.isDigit more
      simp only [List.length_cons]
      omega
  · simp

theorem length_bracketStep_le (cs : List Char) : (bracketStep cs).2.length ≤ cs.length := by
  unfold bracketStep
  split
  · next rest _ hd =>
    have := length_dropWhile_le Char.isDigit cs
    rw [hd] at this
    simp only [List.length_cons] at this
    dsimp only
    omega
  · split
    · next more _ =>
      have := length_distance_le more
      split
      · next hd =>
        rw [hd] at this
        simp only [List.length_cons] at this ⊢
        omega
      · simp
    · simp

theorem length_keyStep_le (cs : List Char) : (keyStep cs).2.length ≤ cs.length := by
  unfold keyStep
  split
  · next more =>
    split
    · simp
    · next hd =>
      have := length_dropWhile_le (· != '"') more
      rw [hd] at this
      simp only [List.length_cons] at this ⊢
      omega
  · dsimp only
    split
    · simp
    · exact length_dropWhile_le _ cs

theorem length_nextStep_le (c : Char) (cs : List Char) :
    (nextStep c cs).2.length ≤ cs.length := by
  unfold nextStep
  split
  · exact length_keyStep_le cs
  · split
    · exact length_bracketStep_le cs
    · simp

/-- The steps of a path, after its root. -/
def steps (cs : List Char) : List Step :=
  match cs with
  | [] => []
  | c :: rest => (nextStep c rest).1 :: steps (nextStep c rest).2
termination_by cs.length
decreasing_by
  have := length_nextStep_le c rest
  simp only [List.length_cons]
  omega

/-- The steps of a column's path. -/
def ofColumn (column : String) : List Step :=
  steps (((text column).toList.takeWhile (· != '\x00')).drop 1)

/-! ### Walking a path -/

/-- The value at the end of a path, if it is there. -/
def walk (c : Cell) : List Step → Except Store.Failure (Option Cell)
  | [] => .ok (some c)
  | .key name :: rest =>
    match c with
    | .object members =>
      match members.find? fun m => Json.escaped m.1.toList = name with
      | some m => walk m.2 rest
      | none => .ok none
    | _ => .ok none
  | .brokenKey :: _ =>
    match c with
    | .object _ => .error .failed
    | _ => .ok none
  | .index n :: rest =>
    match c with
    | .list items =>
      match items[n]? with
      | some item => walk item rest
      | none => .ok none
    | _ => .ok none
  | .fromEnd n closed :: rest =>
    match c with
    | .list items =>
      if items.length < n then .ok none
      else if closed then
        match items[items.length - n]? with
        | some item => walk item rest
        | none => .ok none
      else .error .failed
    | _ => .ok none
  | .broken :: _ => .error .failed

end Path

end Gridbook
