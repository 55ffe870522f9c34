/-
Gridbook/Proofs/Formula/Naming.lean

The names that the parser notes.  It adds a name when it takes it for an operand, and
never looks at a tree; so that its columns are those of the tree is an invariant of its
run.  The names noted so far are those of the operands that wait on the stack and of the
one that has just been completed (`Parser.Noted`): a token that completes something only
moves them, and a name is added in both places.

Main statement: a formula is read as its tree is, and its columns are the names of the
tree in increasing order (`parse_eq`).
-/
import Gridbook.Formula.Basic
import Gridbook.Proofs.Outcome
import Gridbook.Proofs.Sorting

namespace Gridbook

namespace Formula

/-! ### Names of trees and of states -/

namespace Tree

/-- The column names from left to right. -/
def names : Tree → List String
  | literal _ => []
  | column name => [name]
  | negate t => t.names
  | binary _ l r => l.names ++ r.names

/-- The column names, sorted and each once. -/
def columns (t : Tree) : List String :=
  Text.sortedDistinct t.names

/-- The tree that a list of tokens spells, whatever is noted. -/
def ofTokens (ts : List Placed) : Except SyntaxFault Tree := do
  finish (← ts.foldlM step (.before []))

end Tree

/-- The names of an operand that waits. -/
def Frame.names : Frame → List String
  | opened => []
  | negation => []
  | factor _ left => left.names
  | summand _ left => left.names

/-- The names of all operands that wait. -/
def stackNames (stack : List Frame) : List String :=
  stack.flatMap Frame.names

/-- The names of all operands that have been read. -/
def State.names : State → List String
  | before stack => stackNames stack
  | after stack t => stackNames stack ++ t.names

variable {name : String} {stack : List Frame} {t : Tree}

/-- Completing negations and products moves the names. -/
theorem mem_closeFactors :
    name ∈ stackNames (closeFactors stack t).1 ++ (closeFactors stack t).2.names ↔
      name ∈ stackNames stack ++ t.names := by
  induction stack generalizing t with
  | nil => rfl
  | cons f stack ih =>
    cases f with
    | opened => rfl
    | negation => exact ih
    | factor op left =>
      refine ih.trans ?_
      simp only [stackNames, Tree.names, Frame.names, List.flatMap_cons, List.mem_append]
      tauto
    | summand op left => rfl

/-- So does completing sums. -/
theorem mem_closeSummands :
    name ∈ stackNames (closeSummands stack t).1 ++ (closeSummands stack t).2.names ↔
      name ∈ stackNames stack ++ t.names := by
  refine Iff.trans ?_ mem_closeFactors
  unfold closeSummands
  split
  · next op left stack' t' h =>
    rw [h]
    simp only [stackNames, Tree.names, Frame.names, List.flatMap_cons, List.mem_append]
    tauto
  · rfl

/-- An operand that is put on the stack, as one side of an operator, still is there. -/
theorem mem_before {f : Frame} (hf : f.names = t.names) :
    name ∈ (State.before (f :: stack)).names ↔ name ∈ stackNames stack ++ t.names := by
  rw [State.names, stackNames, List.flatMap_cons, hf, List.mem_append, List.mem_append, or_comm]
  rfl

/-! ### The run of the parser -/

namespace Parser

variable {p q : Parser}

/-- The names noted are those of all operands that have been read. -/
structure Noted (p : Parser) : Prop where
  sorted : p.columns.Pairwise (· < ·)
  mem_iff : ∀ name, name ∈ p.columns ↔ name ∈ p.state.names

theorem noted_start : start.Noted :=
  ⟨List.Pairwise.nil, fun _ => Iff.rfl⟩

theorem Noted.sorted_noted (h : p.Noted) (t : Token) :
    (p.state.noted t p.columns).Pairwise (· < ·) := by
  unfold State.noted
  split
  · exact Text.pairwise_insertDistinct h.sorted
  · exact h.sorted

/-- A token adds the same names to the state as are noted. -/
theorem Noted.mem_step (h : p.Noted) {t : Placed} {state : State}
    (hstep : step p.state t = .ok state) (name : String) :
    name ∈ p.state.noted t.token p.columns ↔ name ∈ state.names := by
  have hmem := h.mem_iff name
  generalize p.columns = columns at hmem
  cases hp : p.state with
  | before stack =>
    rw [hp] at hstep hmem
    rw [step] at hstep
    split at hstep
    · next l htoken =>
      cases hstep
      rw [htoken]
      exact hmem.trans (by simp [State.names, Tree.names])
    · next cs htoken =>
      cases hstep
      rw [htoken]
      refine Text.mem_insertDistinct.trans ?_
      rw [hmem, State.names, State.names, List.mem_append, Tree.names, List.mem_singleton, or_comm]
    · next htoken =>
      cases hstep
      rw [htoken]
      exact hmem
    · next htoken =>
      cases hstep
      rw [htoken]
      exact hmem
    · cases hstep
  | after stack u =>
    rw [hp] at hstep hmem
    have hclosed := hmem.trans mem_closeSummands.symm
    rw [step] at hstep
    split at hstep
    · cases hstep
      exact hclosed.trans (mem_before rfl).symm
    · cases hstep
      exact hclosed.trans (mem_before rfl).symm
    · cases hstep
      exact hmem.trans (mem_closeFactors.symm.trans (mem_before rfl).symm)
    · split at hstep
      · next stack' u' hclose =>
        cases hstep
        rw [hclose] at hclosed
        exact hclosed
      · cases hstep
    · cases hstep

theorem Noted.read (h : p.Noted) {t : Placed} (hread : p.read t = .ok q) : q.Noted := by
  obtain ⟨state, hstep, hq⟩ := Outcome.bind_eq_ok.1 hread
  cases hq
  exact ⟨h.sorted_noted t.token, h.mem_step hstep⟩

theorem Noted.run {ts : List Placed} (h : p.Noted) (hrun : ts.foldlM Parser.read p = .ok q) :
    q.Noted := by
  induction ts generalizing p with
  | nil =>
    cases hrun
    exact h
  | cons t ts ih =>
    obtain ⟨mid, hread, hrun⟩ := Outcome.bind_eq_ok.1 hrun
    exact ih (h.read hread) hrun

/-- What is noted has no influence on the run. -/
theorem map_state_run (ts : List Placed) (p : Parser) :
    (ts.foldlM Parser.read p).map (·.state) = ts.foldlM step p.state := by
  induction ts generalizing p with
  | nil => rfl
  | cons t ts ih =>
    rw [List.foldlM_cons, List.foldlM_cons, Parser.read]
    cases step p.state t with
    | error e => rfl
    | ok state => exact ih ⟨state, p.state.noted t.token p.columns⟩

/-- Where the tokens may end, the names noted are those of the tree. -/
theorem Noted.columns_eq (h : p.Noted) (hfinish : finish p.state = .ok t) :
    p.columns = t.columns := by
  refine Text.eq_sortedDistinct h.sorted fun name => (h.mem_iff name).trans ?_
  cases hp : p.state with
  | before stack =>
    rw [hp] at hfinish
    cases hfinish
  | after stack u =>
    rw [hp, finish] at hfinish
    refine mem_closeSummands.symm.trans ?_
    split at hfinish
    · next hclose =>
      cases hfinish
      rw [hclose]
      rfl
    · cases hfinish

end Parser

/-! ### Reading a text -/

/-- A formula is its tree with the names of the tree for its columns. -/
theorem parse_eq (s : String) :
    parse s =
      if s.toList.all Text.isBlank then .error .blank
      else do
        let tree ← Tree.ofTokens (← lex s)
        return ⟨s, tree, tree.columns⟩ := by
  unfold parse
  split
  · rfl
  refine Outcome.bind_congr fun ts _ => ?_
  have hrun := Parser.map_state_run ts .start
  rw [Tree.ofTokens, show State.before [] = Parser.start.state from rfl, ← hrun]
  cases hparser : ts.foldlM Parser.read .start with
  | error fault => rfl
  | ok p =>
    have hnoted := Parser.noted_start.run hparser
    show (finish p.state >>= fun t => Except.ok (Formula.mk s t p.columns)) =
      finish p.state >>= fun t => Except.ok (Formula.mk s t t.columns)
    exact Outcome.bind_congr fun t ht => by rw [hnoted.columns_eq ht]

/-- The columns of a formula are those of its tree. -/
theorem columns_of_parse {s : String} {f : Formula} (h : parse s = .ok f) :
    f.columns = f.tree.columns := by
  rw [parse_eq] at h
  split at h
  · cases h
  obtain ⟨ts, -, h⟩ := Outcome.bind_eq_ok.1 h
  obtain ⟨t, -, h⟩ := Outcome.bind_eq_ok.1 h
  cases h
  rfl

theorem mem_columns_iff {s : String} {f : Formula} (h : parse s = .ok f) :
    name ∈ f.columns ↔ name ∈ f.tree.names := by
  rw [columns_of_parse h]
  exact Text.mem_sortedDistinct

end Formula

end Gridbook
