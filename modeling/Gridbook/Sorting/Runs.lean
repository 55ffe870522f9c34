/-
Gridbook/Sorting/Runs.lean

Sorting by merging runs, for a comparison that may fail or be no order.  The
result then hangs on which members are compared, so the procedure is fixed in
all its steps.

A run is a stretch that does not go down, or one that goes down all the way and
is turned around; short ones are extended by binary insertion.  Runs wait on a
stack and are merged by their powers, which place the border between two runs in
a balanced tree over the list.  A merge takes one member at a time until one run
keeps winning, and then searches how many of them can be taken at once.
-/
namespace Gridbook.Runs

variable {α ε : Type} [Inhabited α]

/-- The comparison: does the first one have to come before the second? -/
abbrev Less (α ε : Type) := α → α → Except ε Bool

/-! ### Searching -/

/-- Offsets 1, 3, 7, … as long as they stay below `bound` and the test holds:
the last one that held, and the first one that did not, at most `bound`. -/
def widen (test : Nat → Except ε Bool) (bound : Nat) :
    Nat → Nat → Nat → Except ε (Nat × Nat)
  | 0, held, next => .ok (held, next)
  | fuel + 1, held, next =>
    if next < bound then do
      if ← test next then widen test bound fuel next (2 * next + 1) else return (held, next)
    else .ok (held, min next bound)

/-- The first place from `low` to `high` that is not below, by halving. -/
def bisect (isBelow : Nat → Except ε Bool) : Nat → Nat → Nat → Except ε Nat
  | 0, low, _ => .ok low
  | fuel + 1, low, high =>
    if low < high then do
      let middle := (low + high) / 2
      if ← isBelow middle then bisect isBelow fuel (middle + 1) high
      else bisect isBelow fuel low middle
    else .ok low

/-- The first of `n` places that is not below, searched from `hint` outwards. -/
def gallop (isBelow : Nat → Except ε Bool) (n hint : Nat) : Except ε Nat := do
  if ← isBelow hint then
    let (held, next) ← widen (fun k => isBelow (hint + k)) (n - hint) n 0 1
    bisect isBelow n (hint + held + 1) (hint + next)
  else
    let (held, next) ← widen (fun k => (isBelow (hint - k)).map (!·)) (hint + 1) n 0 1
    bisect isBelow n (hint + 1 - next) (hint - held)

/-- The place of `key` after its equals. -/
def placeAfter (less : Less α ε) (key : α) (run : Array α) (hint : Nat) : Except ε Nat :=
  gallop (fun i => (less key (run.getD i default)).map (!·)) run.size hint

/-- The place of `key` before its equals. -/
def placeBefore (less : Less α ε) (key : α) (run : Array α) (hint : Nat) : Except ε Nat :=
  gallop (fun i => less (run.getD i default) key) run.size hint

/-! ### Finding runs -/

/-- The members that go on as the first two did, and the rest. -/
def extend (less : Less α ε) (down : Bool) (last : α) :
    List α → Except ε (List α × List α)
  | [] => .ok ([], [])
  | a :: as => do
    if (← less a last) == down then
      let (run, rest) ← extend less down a as
      return (a :: run, rest)
    else return ([], a :: as)

/-- The run at the start of a list, upwards, and the rest. -/
def firstRun (less : Less α ε) : List α → Except ε (List α × List α)
  | [] => .ok ([], [])
  | [a] => .ok ([a], [])
  | a :: b :: as => do
    let down ← less b a
    let (run, rest) ← extend less down b as
    return (if down then (a :: b :: run).reverse else a :: b :: run, rest)

/-- Insert a member after its equals, by halving. -/
def insert (less : Less α ε) (run : Array α) (a : α) : Except ε (Array α) := do
  let place ← bisect (fun i => (less a (run.getD i default)).map (!·)) (run.size + 1) 0 run.size
  return run.extract 0 place ++ #[a] ++ run.extract place run.size

/-- The least length of a run in a list of `n` members. -/
def leastRun : Nat → Nat → Nat → Nat
  | 0, n, odd => n + odd
  | fuel + 1, n, odd =>
    if n < 64 then n + odd else leastRun fuel (n / 2) (max odd (n % 2))

/-- The next run, of at least `least` members if there are as many, and the
rest. -/
def nextRun (less : Less α ε) (least : Nat) (as : List α) : Except ε (Array α × List α) := do
  let (run, rest) ← firstRun less as
  let missing := least - run.length
  let run ← (rest.take missing).foldlM (insert less) run.toArray
  return (run, rest.drop missing)

/-! ### Merging two runs -/

/-- A merge on its way.  It goes upwards from the first members or downwards
from the last ones, and its lists stand in the order in which they are taken. -/
structure Merging (α : Type) where
  up : Bool
  left : List α
  right : List α
  /-- What has been taken, the latest first. -/
  taken : List α
  /-- How often a run has to win before it is searched. -/
  patience : Nat

namespace Merging

/-- Is the order of what is left known? -/
def isOver (m : Merging α) : Bool :=
  if m.up then m.right.isEmpty || m.left.length ≤ 1
  else m.left.isEmpty || m.right.length ≤ 1

/-- The merged run, when the merge is over. -/
def result (m : Merging α) : Array α :=
  (if m.up then m.taken.reverse ++ m.right ++ m.left
   else m.right.reverse ++ m.left.reverse ++ m.taken).toArray

def takeLeft (m : Merging α) (n : Nat) : Merging α :=
  { m with left := m.left.drop n, taken := (m.left.take n).reverse ++ m.taken }

def takeRight (m : Merging α) (n : Nat) : Merging α :=
  { m with right := m.right.drop n, taken := (m.right.take n).reverse ++ m.taken }

/-- How many members of a list, in the order of taking, `search` finds to be
taken at once. -/
def run (m : Merging α) (list : List α) (search : Array α → Nat → Except ε Nat) :
    Except ε Nat :=
  if m.up then search list.toArray 0
  else (search list.reverse.toArray (list.length - 1)).map (list.length - ·)

/-- How many left members come before the next right one. -/
def leftRun (less : Less α ε) (m : Merging α) : Except ε Nat :=
  m.run m.left (placeAfter less (m.right.headD default))

/-- How many right members come before the next left one. -/
def rightRun (less : Less α ε) (m : Merging α) : Except ε Nat :=
  m.run m.right (placeBefore less (m.left.headD default))

end Merging

/-- What a merge does next. -/
inductive Phase where
  /-- Take one member; how often the left and the right one have just won. -/
  | single (left right : Nat)
  /-- Search how many can be taken. -/
  | search

/-- The number of members found at once for which searching goes on. -/
def worthwhile : Nat := 7

/-- Take one member. -/
def single (less : Less α ε) (m : Merging α) (left right : Nat) :
    Except ε (Merging α × Phase) := do
  let fromRight ← less (m.right.headD default) (m.left.headD default)
  let next (m : Merging α) (left right wins : Nat) : Merging α × Phase :=
    if !m.isOver && m.patience ≤ wins then ({ m with patience := m.patience + 1 }, .search)
    else (m, .single left right)
  if fromRight == m.up then return next (m.takeRight 1) 0 (right + 1) (right + 1)
  else return next (m.takeLeft 1) (left + 1) 0 (left + 1)

/-- Take what comes before the next right member, that member, what comes before
the next left one, and that one, and stop as soon as the merge is over. -/
def search (less : Less α ε) (m : Merging α) : Except ε (Merging α × Phase) := do
  let m := if 1 < m.patience then { m with patience := m.patience - 1 } else m
  let k ← m.leftRun less
  let m := m.takeLeft k
  if m.isOver then return (m, .search)
  let m := m.takeRight 1
  if m.isOver then return (m, .search)
  let l ← m.rightRun less
  let m := m.takeRight l
  if m.isOver then return (m, .search)
  let m := m.takeLeft 1
  if m.isOver || worthwhile ≤ k || worthwhile ≤ l then return (m, .search)
  else return ({ m with patience := m.patience + 1 }, .single 0 0)

/-- Go on until the merge is over; every step takes a member. -/
def finish (less : Less α ε) : Nat → Merging α → Phase → Except ε (Merging α)
  | 0, m, _ => .ok m
  | fuel + 1, m, phase =>
    if m.isOver then .ok m
    else do
      let (m, phase) ← match phase with
        | .single left right => single less m left right
        | .search => search less m
      finish less fuel m phase

/-- Two runs merged, and the patience after that.  What is in its place already
is left out. -/
def merge (less : Less α ε) (patience : Nat) (a b : Array α) : Except ε (Array α × Nat) := do
  let start ← placeAfter less (b.getD 0 default) a 0
  if start = a.size then return (a ++ b, patience)
  let stop ← placeBefore less (a.getD (a.size - 1) default) b (b.size - 1)
  if stop = 0 then return (a ++ b, patience)
  let left := (a.extract start a.size).toList
  let right := (b.extract 0 stop).toList
  let begun : Merging α :=
    if left.length ≤ right.length then
      (Merging.mk true left right [] patience).takeRight 1
    else (Merging.mk false left.reverse right.reverse [] patience).takeLeft 1
  let m ← finish less (a.size + b.size) begun (.single 0 0)
  return (a.extract 0 start ++ m.result ++ b.extract stop b.size, m.patience)

/-! ### The stack of runs -/

/-- A run with its place in the list, and its power once there is another one
after it. -/
structure Waiting (α : Type) where
  start : Nat
  run : Array α
  power : Nat

/-- How many halvings of a list of `n` members tell two places apart; the places
are given as multiples of `1 / 2n`. -/
def powerOf (n : Nat) : Nat → Nat → Nat → Nat
  | 0, _, _ => 0
  | fuel + 1, a, b =>
    if n ≤ a then 1 + powerOf n fuel (2 * (a - n)) (2 * (b - n))
    else if n ≤ b then 1
    else 1 + powerOf n fuel (2 * a) (2 * b)

/-- The runs that wait, the latest first, and the patience. -/
structure Stack (α : Type) where
  runs : List (Waiting α)
  patience : Nat

/-- Merge two neighbours, of which `a` comes first. -/
def join (less : Less α ε) (patience : Nat) (a b : Waiting α) :
    Except ε (Waiting α × Nat) := do
  let (run, patience) ← merge less patience a.run b.run
  return ({ a with run := run }, patience)

/-- Merge the latest runs while the border between them has more power. -/
def settle (less : Less α ε) (power : Nat) : Nat → Stack α → Except ε (Stack α)
  | 0, s => .ok s
  | fuel + 1, s =>
    match s.runs with
    | b :: a :: rest =>
      if power < a.power then do
        let (run, patience) ← join less s.patience a b
        settle less power fuel ⟨run :: rest, patience⟩
      else .ok s
    | _ => .ok s

/-- Give the latest run its power, now that the next one is known. -/
def empower (power : Nat) : List (Waiting α) → List (Waiting α)
  | [] => []
  | a :: rest => { a with power } :: rest

/-- Put a run on the stack, in a list of `n` members. -/
def push (less : Less α ε) (n : Nat) (s : Stack α) (start : Nat) (run : Array α) :
    Except ε (Stack α) := do
  match s.runs with
  | [] => return { s with runs := [⟨start, run, 0⟩] }
  | a :: _ =>
    let place := 2 * a.start + a.run.size
    let power := powerOf n (n + 64) place (place + a.run.size + run.size)
    let s ← settle less power s.runs.length s
    return { s with runs := ⟨start, run, 0⟩ :: empower power s.runs }

/-- Find the runs of a list from place `start` on and put them on the stack. -/
def collect (less : Less α ε) (n least : Nat) :
    Nat → Stack α → Nat → List α → Except ε (Stack α)
  | 0, s, _, _ => .ok s
  | _, s, _, [] => .ok s
  | fuel + 1, s, start, as => do
    let (run, rest) ← nextRun less least as
    let s ← push less n s start run
    collect less n least fuel s (start + run.size) rest

/-- Merge all runs, the shorter neighbour of the last but one first. -/
def collapse (less : Less α ε) : Nat → Stack α → Except ε (Stack α)
  | 0, s => .ok s
  | fuel + 1, s =>
    match s.runs with
    | c :: b :: a :: rest =>
      if a.run.size < c.run.size then do
        let (run, patience) ← join less s.patience a b
        collapse less fuel ⟨c :: run :: rest, patience⟩
      else do
        let (run, patience) ← join less s.patience b c
        collapse less fuel ⟨run :: a :: rest, patience⟩
    | [b, a] => do
      let (run, patience) ← join less s.patience a b
      return ⟨[run], patience⟩
    | _ => .ok s

/-- The members of a list as merging its runs orders them. -/
def sort (less : Less α ε) (as : List α) : Except ε (List α) := do
  let n := as.length
  let s ← collect less n (leastRun n n 0) n ⟨[], worthwhile⟩ 0 as
  let s ← collapse less s.runs.length s
  return (s.runs.flatMap (·.run.toList))

end Gridbook.Runs
