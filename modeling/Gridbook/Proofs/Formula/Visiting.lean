/-
Gridbook/Proofs/Formula/Visiting.lean

The order of an evaluation.  `Tree.visits` lists what there is to do in a tree: its
operands from left to right, and each operator behind its operands.  A visit works
on the values that wait for an operator, the last one on top (`Visit.step`), and an
evaluation is the run of all visits (`foldlM_visits`).  So it stops at the first
visit that fails, and nothing else can fail it.

What an operator makes of two numbers is said once more without a program
(`Operator.Makes`): exact on whole numbers but for the quotient, which is the nearest
double, and by doubles where one of the two is a double.  `Tree.Means` takes this
through a tree.

Main statement: `value_in_order`, what a value has been made of, which message a
failed evaluation has, and when an evaluation does not fail.
-/
import Gridbook.Proofs.Formula.Checking

namespace Gridbook

/-- The strict reading fails only on whole numbers beyond the doubles. -/
theorem Cell.eq_overflow_of_strictNumber {c : Cell} {e : Cell.Fault}
    (h : c.strictNumber = .error e) : e = .overflow := by
  cases c with
  | number n =>
    cases n with
    | whole m =>
      rcases Nat.lt_or_ge m.natAbs Real.reach with hm | hm
      · rw [strictNumber_whole hm] at h
        cases h
      · rw [strictNumber_of_reach hm] at h
        exact (Except.error.inj h).symm
    | word w => cases h
    | real x => cases h
  | typed t => cases t <;> cases h
  | _ => cases h

namespace Number

/-! ### What operators make -/

/-- Is one of the two a double?  Then the operation is one of doubles. -/
def meetAsReals (a b : Number) : Bool :=
  a.isReal || b.isReal

/-- Is one of the two a word, and none a double? -/
def meetAsWords : Number → Number → Bool
  | whole _, whole _ => false
  | a, b => !(a.isReal || b.isReal)

variable {onWholes : Int → Int → Int} {onWords : Int64 → Int64 → Int64}
  {onReals : Float → Float → Float} {a b n : Number}

theorem meetAsReals_of_words (h : a.meetAsWords b) : a.meetAsReals b = false := by
  unfold meetAsWords at h
  split at h
  · cases h
  · simpa [meetAsReals] using h

theorem viaReals?_eq_some_iff :
    viaReals? onReals a b = some n ↔
      ∃ x y, a.toReal? = some x ∧ b.toReal? = some y ∧ n = real (onReals x y) := by
  unfold viaReals?
  cases a.toReal? <;> cases b.toReal? <;> simp [eq_comm]

theorem viaWords?_eq_some_iff :
    viaWords? onWords a b = some n ↔
      ∃ v w, a.toWord? = some v ∧ b.toWord? = some w ∧ n = word (onWords v w) := by
  unfold viaWords?
  cases a.toWord? <;> cases b.toWord? <;> simp [eq_comm]

theorem viaReals?_eq_none_iff :
    viaReals? onReals a b = none ↔ a.toReal? = none ∨ b.toReal? = none := by
  unfold viaReals?
  cases a.toReal? <;> cases b.toReal? <;> simp

theorem viaWords?_eq_none_iff :
    viaWords? onWords a b = none ↔ a.toWord? = none ∨ b.toWord? = none := by
  unfold viaWords?
  cases a.toWord? <;> cases b.toWord? <;> simp

theorem combine?_of_reals (h : a.meetAsReals b) :
    combine? onWholes onWords onReals a b = viaReals? onReals a b := by
  unfold combine?
  split
  · cases h
  · exact if_pos h

theorem combine?_of_words (h : a.meetAsWords b) :
    combine? onWholes onWords onReals a b = viaWords? onWords a b := by
  unfold combine?
  split
  · cases h
  · exact if_neg (Bool.eq_false_iff.1 (meetAsReals_of_words h))

/-- Two numbers meet as whole ones, as doubles, or as words. -/
theorem meet_cases (a b : Number) :
    (∃ m n, a = whole m ∧ b = whole n) ∨ a.meetAsReals b ∨ a.meetAsWords b := by
  cases a <;> cases b <;> simp [meetAsReals, meetAsWords, isReal]

/-- A word has a nearest double, and so has what becomes one. -/
theorem exists_toReal_of_toWord {v : Int64} (h : a.toWord? = some v) : ∃ x, a.toReal? = some x := by
  have hreach : 2 ^ 63 < Real.reach := by decide +kernel
  cases a with
  | whole m =>
    have hfits : fitsWord m := by
      by_contra hfits
      rw [toWord?, if_neg hfits] at h
      cases h
    obtain ⟨hlow, hhigh⟩ := fitsWord_iff.1 hfits
    refine Real.exists_ofInt?_iff.2 ?_
    omega
  | word w =>
    have hlow := w.le_toInt
    have hhigh := w.toInt_lt
    refine Real.exists_ofInt?_iff.2 ?_
    omega
  | real x => exact ⟨x, rfl⟩

theorem div?_of_reals (h : a.meetAsReals b) : div? a b = viaReals? (· / ·) a b := by
  unfold div?
  split
  · cases h
  · refine if_pos ?_
    rw [show (a.isReal || b.isReal) = true from h]
    rfl

/-- A quotient of words is one of doubles, but only of what are words. -/
theorem div?_of_words (h : a.meetAsWords b) :
    div? a b = if a.toWord?.isSome && b.toWord?.isSome then viaReals? (· / ·) a b else none := by
  unfold div?
  split
  · cases h
  · rw [show (a.isReal || b.isReal) = false from meetAsReals_of_words h, Bool.false_or]

/-- Words always have a quotient, so only what is no word can be in its way. -/
theorem div?_of_words_eq_none_iff (h : a.meetAsWords b) :
    div? a b = none ↔ a.toWord? = none ∨ b.toWord? = none := by
  rw [div?_of_words h]
  cases hv : a.toWord? with
  | none => simp
  | some v =>
    cases hw : b.toWord? with
    | none => simp
    | some w =>
      obtain ⟨x, hx⟩ := exists_toReal_of_toWord hv
      obtain ⟨y, hy⟩ := exists_toReal_of_toWord hw
      simp [viaReals?, hx, hy]

end Number

namespace Formula

/-- What the operator makes of two whole numbers, if that is a whole number. -/
def Operator.onWholes? : Operator → Option (Int → Int → Int)
  | plus => some (· + ·)
  | minus => some (· - ·)
  | times => some (· * ·)
  | divide => none

/-- What the operator makes of two words, if that is a word. -/
def Operator.onWords? : Operator → Option (Int64 → Int64 → Int64)
  | plus => some (· + ·)
  | minus => some (· - ·)
  | times => some (· * ·)
  | divide => none

def Operator.onReals : Operator → Float → Float → Float
  | plus => (· + ·)
  | minus => (· - ·)
  | times => (· * ·)
  | divide => (· / ·)

/-- The operator makes this number of the two.  There is no quotient by zero. -/
inductive Operator.Makes : Operator → Number → Number → Number → Prop
  | wholes {op g m n} : op.onWholes? = some g → Makes op (.whole m) (.whole n) (.whole (g m n))
  | quotient {m n x} : n ≠ 0 → Real.quotient? m n = some x →
      Makes .divide (.whole m) (.whole n) (.real x)
  | reals {op a b x y} : a.meetAsReals b → (op = .divide → b.isZero = false) →
      a.toReal? = some x → b.toReal? = some y → Makes op a b (.real (op.onReals x y))
  | words {op g a b v w} : a.meetAsWords b → op.onWords? = some g → a.toWord? = some v →
      b.toWord? = some w → Makes op a b (.word (g v w))
  | wordQuotient {a b v w x y} : a.meetAsWords b → b.isZero = false → a.toWord? = some v →
      b.toWord? = some w → a.toReal? = some x → b.toReal? = some y →
      Makes .divide a b (.real (x / y))

/-- The quotient, or a double or word that the operator needs, is beyond the numbers at
hand.  Sums, differences and products of whole numbers never are. -/
inductive Operator.Overflows : Operator → Number → Number → Prop
  | quotient {m n} : Real.quotient? m n = none → Overflows .divide (.whole m) (.whole n)
  | reals {op a b} : a.meetAsReals b → a.toReal? = none ∨ b.toReal? = none → Overflows op a b
  | words {op a b} : a.meetAsWords b → a.toWord? = none ∨ b.toWord? = none → Overflows op a b

/-- The operator on numbers, for a divisor other than zero. -/
def Operator.number? : Operator → Number → Number → Option Number
  | plus => Number.add?
  | minus => Number.sub?
  | times => Number.mul?
  | divide => Number.div?

variable {op : Operator} {a b n : Number}

theorem Operator.apply_eq (op : Operator) (a b : Number) :
    op.apply a b =
      if op = .divide ∧ b.isZero then .error (.evaluation .zeroDivision)
      else
        match op.number? a b with
        | some n => .ok n
        | none => .error .overflow := by
  cases op with
  | plus => rfl
  | minus => rfl
  | times => rfl
  | divide =>
    by_cases hb : b.isZero
    · rw [if_pos ⟨rfl, hb⟩]
      exact if_pos hb
    · rw [if_neg fun h => hb h.2]
      exact if_neg hb

/-- The three operators that are no quotient treat the kinds of numbers alike. -/
theorem Operator.number?_eq_combine (h : op ≠ .divide) :
    ∃ onWholes onWords, op.onWholes? = some onWholes ∧ op.onWords? = some onWords ∧
      op.number? = Number.combine? onWholes onWords op.onReals := by
  cases op with
  | divide => exact absurd rfl h
  | _ => exact ⟨_, _, rfl, rfl, rfl⟩

theorem Operator.makes_wholes_iff {j k : Int} :
    op.Makes (.whole j) (.whole k) n ↔
      (∃ g, op.onWholes? = some g ∧ n = .whole (g j k)) ∨
        op = .divide ∧ k ≠ 0 ∧ ∃ x, Real.quotient? j k = some x ∧ n = .real x := by
  constructor
  · intro h
    cases h with
    | wholes hg => exact .inl ⟨_, hg, rfl⟩
    | quotient hk hx => exact .inr ⟨rfl, hk, _, hx, rfl⟩
    | reals hmeet => cases hmeet
    | words hmeet => cases hmeet
    | wordQuotient hmeet => cases hmeet
  · rintro (⟨g, hg, rfl⟩ | ⟨rfl, hk, x, hx, rfl⟩)
    · exact .wholes hg
    · exact .quotient hk hx

theorem Operator.makes_reals_iff (h : a.meetAsReals b) :
    op.Makes a b n ↔
      (op = .divide → b.isZero = false) ∧
        ∃ x y, a.toReal? = some x ∧ b.toReal? = some y ∧ n = .real (op.onReals x y) := by
  constructor
  · intro hmakes
    cases hmakes with
    | wholes => cases h
    | quotient => cases h
    | reals _ hzero hx hy => exact ⟨hzero, _, _, hx, hy, rfl⟩
    | words hmeet => cases h.symm.trans (Number.meetAsReals_of_words hmeet)
    | wordQuotient hmeet => cases h.symm.trans (Number.meetAsReals_of_words hmeet)
  · rintro ⟨hzero, x, y, hx, hy, rfl⟩
    exact .reals h hzero hx hy

theorem Operator.makes_words_iff (h : a.meetAsWords b) :
    op.Makes a b n ↔
      ∃ v w, a.toWord? = some v ∧ b.toWord? = some w ∧
        ((∃ g, op.onWords? = some g ∧ n = .word (g v w)) ∨
          op = .divide ∧ b.isZero = false ∧
            ∃ x y, a.toReal? = some x ∧ b.toReal? = some y ∧ n = .real (x / y)) := by
  constructor
  · intro hmakes
    cases hmakes with
    | wholes => cases h
    | quotient => cases h
    | reals hmeet => cases hmeet.symm.trans (Number.meetAsReals_of_words h)
    | words _ hg hv hw => exact ⟨_, _, hv, hw, .inl ⟨_, hg, rfl⟩⟩
    | wordQuotient _ hzero hv hw hx hy => exact ⟨_, _, hv, hw, .inr ⟨rfl, hzero, _, _, hx, hy, rfl⟩⟩
  · rintro ⟨v, w, hv, hw, ⟨g, hg, rfl⟩ | ⟨rfl, hzero, x, y, hx, hy, rfl⟩⟩
    · exact .words h hg hv hw
    · exact .wordQuotient h hzero hv hw hx hy

/-! ### What the program makes -/

theorem Operator.number?_of_reals (h : a.meetAsReals b) :
    op.number? a b = Number.viaReals? op.onReals a b := by
  by_cases hop : op = .divide
  · subst hop
    exact Number.div?_of_reals h
  · obtain ⟨_, _, -, -, hnumber⟩ := number?_eq_combine hop
    rw [hnumber, Number.combine?_of_reals h]

/-- What the program computes is what the operator makes. -/
theorem Operator.number?_eq_some_iff (hzero : op = .divide → b.isZero = false) :
    op.number? a b = some n ↔ op.Makes a b n := by
  rcases Number.meet_cases a b with ⟨j, k, rfl, rfl⟩ | hreals | hwords
  · rw [makes_wholes_iff]
    by_cases hop : op = .divide
    · subst hop
      have hk : k ≠ 0 := fun hk => Bool.eq_false_iff.1 (hzero rfl) (beq_iff_eq.2 hk)
      show (Real.quotient? j k).map Number.real = some n ↔ _
      rw [Option.map_eq_some_iff]
      simp [onWholes?, hk, eq_comm]
    · obtain ⟨g, _, hg, -, hnumber⟩ := number?_eq_combine hop
      rw [hnumber]
      simp [hg, hop, Number.combine?, eq_comm]
  · rw [number?_of_reals hreals, Number.viaReals?_eq_some_iff, makes_reals_iff hreals]
    exact (and_iff_right hzero).symm
  · rw [makes_words_iff hwords]
    by_cases hop : op = .divide
    · subst hop
      show a.div? b = some n ↔ _
      rw [Number.div?_of_words hwords]
      cases hv : a.toWord? <;> cases hw : b.toWord? <;>
        simp [onWords?, hzero, Number.viaReals?_eq_some_iff]
    · obtain ⟨_, g, -, hg, hnumber⟩ := number?_eq_combine hop
      rw [hnumber, Number.combine?_of_words hwords, Number.viaWords?_eq_some_iff]
      simp [hg, hop]

/-- And where it computes nothing, something is beyond the numbers at hand. -/
theorem Operator.number?_eq_none_iff : op.number? a b = none ↔ op.Overflows a b := by
  rcases Number.meet_cases a b with ⟨j, k, rfl, rfl⟩ | hreals | hwords
  · by_cases hop : op = .divide
    · subst hop
      refine Option.map_eq_none_iff.trans ⟨.quotient, fun h => ?_⟩
      cases h with
      | quotient h => exact h
      | reals hmeet => cases hmeet
      | words hmeet => cases hmeet
    · obtain ⟨g, _, -, -, hnumber⟩ := number?_eq_combine hop
      rw [hnumber]
      refine ⟨nofun, fun h => ?_⟩
      cases h with
      | quotient => exact absurd rfl hop
      | reals hmeet => cases hmeet
      | words hmeet => cases hmeet
  · rw [number?_of_reals hreals, Number.viaReals?_eq_none_iff]
    refine ⟨.reals hreals, fun h => ?_⟩
    cases h with
    | quotient => cases hreals
    | reals _ h => exact h
    | words hmeet => cases hreals.symm.trans (Number.meetAsReals_of_words hmeet)
  · have hnone : op.number? a b = none ↔ a.toWord? = none ∨ b.toWord? = none := by
      by_cases hop : op = .divide
      · subst hop
        exact Number.div?_of_words_eq_none_iff hwords
      · obtain ⟨_, g, -, -, hnumber⟩ := number?_eq_combine hop
        rw [hnumber, Number.combine?_of_words hwords, Number.viaWords?_eq_none_iff]
    refine hnone.trans ⟨.words hwords, fun h => ?_⟩
    cases h with
    | quotient => cases hwords
    | reals hmeet => cases hmeet.symm.trans (Number.meetAsReals_of_words hwords)
    | words _ h => exact h

theorem Operator.Makes.isZero (h : op.Makes a b n) : op = .divide → b.isZero = false := by
  rintro rfl
  cases h with
  | wholes hg => cases hg
  | quotient hn => exact Bool.eq_false_iff.2 fun hzero => hn (beq_iff_eq.1 hzero)
  | reals _ hzero => exact hzero rfl
  | words _ hg => cases hg
  | wordQuotient _ hzero => exact hzero

theorem Operator.apply_of_isZero (hzero : op = .divide → b.isZero = false) :
    op.apply a b =
      match op.number? a b with
      | some n => .ok n
      | none => .error .overflow := by
  rw [apply_eq, if_neg]
  rintro ⟨hop, hb⟩
  cases hb.symm.trans (hzero hop)

theorem Operator.apply_eq_ok_iff : op.apply a b = .ok n ↔ op.Makes a b n := by
  by_cases hzero : op = .divide → b.isZero = false
  · rw [apply_of_isZero hzero, ← number?_eq_some_iff hzero]
    cases op.number? a b with
    | none => exact ⟨nofun, nofun⟩
    | some m =>
      exact ⟨fun h => congrArg _ (Except.ok.inj h), fun h => congrArg _ (Option.some.inj h)⟩
  · refine ⟨fun h => ?_, fun h => absurd h.isZero hzero⟩
    obtain ⟨hop, hb⟩ := Classical.not_imp.1 hzero
    rw [apply_eq, if_pos ⟨hop, by simpa using hb⟩] at h
    cases h

theorem Operator.exists_apply (hzero : op = .divide → b.isZero = false) (h : ¬ op.Overflows a b) :
    ∃ n, op.apply a b = .ok n := by
  rw [apply_of_isZero hzero]
  cases hn : op.number? a b with
  | none => exact absurd (number?_eq_none_iff.1 hn) h
  | some n => exact ⟨n, rfl⟩

/-- An operator's only fault of the row is a quotient by zero. -/
theorem Operator.apply_eq_fault_iff {fault : Fault} :
    op.apply a b = .error (.evaluation fault) ↔
      op = .divide ∧ b.isZero ∧ fault = .zeroDivision := by
  rw [apply_eq]
  split
  · next hzero =>
    refine ⟨fun h => ?_, fun h => by rw [h.2.2]⟩
    cases h
    exact ⟨hzero.1, hzero.2, rfl⟩
  · next hzero =>
    refine ⟨fun h => ?_, fun h => absurd ⟨h.1, h.2.1⟩ hzero⟩
    split at h <;> cases h

/-! ### Visits -/

/-- What there is to do at one place of a tree. -/
inductive Visit where
  | literal (x : Float)
  | column (name : String)
  | negation
  | operation (op : Operator)
deriving Repr

/-- The visits of a tree: each operator's operands from left to right, then the
operator. -/
def Tree.visits : Tree → List Visit
  | literal x => [.literal x]
  | column name => [.column name]
  | negate t => t.visits ++ [.negation]
  | binary op l r => l.visits ++ r.visits ++ [.operation op]

/-- A visit on the values that wait for an operator, the last one first.  An operator
without its operands would do nothing. -/
def Visit.step (fields : Fields) (values : List Number) (v : Visit) :
    Except Error (List Number) :=
  match v, values with
  | literal x, values => .ok (.real x :: values)
  | column name, values => (columnValue fields name).map (· :: values)
  | negation, a :: values => .ok (a.neg :: values)
  | operation op, b :: a :: values => (op.apply a b).map (· :: values)
  | _, values => .ok values

variable {fields : Fields} {t : Tree}

/-- A number in a column is put on top. -/
theorem Visit.step_column {name : String} (values : List Number)
    (h : (fields.cell name).strictNumber = .ok (some n)) :
    Visit.step fields values (.column name) = .ok (n :: values) := by
  show (columnValue fields name).map (· :: values) = _
  rw [columnValue_of_some h]
  rfl

/-- The visits of a tree put its value on top, or fail as its evaluation does. -/
theorem foldlM_visits (fields : Fields) (t : Tree) (values : List Number) :
    t.visits.foldlM (Visit.step fields) values = (t.value fields).map (· :: values) := by
  induction t generalizing values with
  | literal x => rfl
  | column name =>
    rw [Tree.visits, Tree.value, List.foldlM_cons]
    show (columnValue fields name).map (· :: values) >>= _ = _
    cases columnValue fields name <;> rfl
  | negate t ih =>
    rw [Tree.visits, Tree.value, List.foldlM_append, ih]
    cases t.value fields <;> rfl
  | binary op l r ihl ihr =>
    rw [Tree.visits, Tree.value, List.foldlM_append, List.foldlM_append, ihl]
    cases l.value fields with
    | error e => rfl
    | ok a =>
      show r.visits.foldlM (Visit.step fields) (a :: values) >>= _ = _
      rw [ihr]
      cases r.value fields with
      | error e => rfl
      | ok b =>
        show (op.apply a b).map (· :: values) >>= _ = (op.apply a b).map (· :: values)
        cases op.apply a b <;> rfl

/-- What a visit says if the row is at fault there. -/
inductive Visit.Faults (fields : Fields) : Visit → List Number → String → Prop
  | missing {name values} : (fields.cell name).isNull →
      Faults fields (.column name) values s!"Column '{name}' is missing"
  | notNumeric {name values shown} : (fields.cell name).isNull = false →
      (fields.cell name).strictNumber = .ok none → (fields.cell name).hasText →
      shown = String.ofList (fields.cell name).innerText →
      Faults fields (.column name) values s!"Column '{name}' is not numeric ({shown})"
  | zeroDivision {a b values} : b.isZero →
      Faults fields (.operation .divide) (b :: a :: values) "Division by zero"

theorem columnValue_eq_fault_iff {name m : String} {values : List Number} :
    (∃ fault, columnValue fields name = .error (.evaluation fault) ∧ fault.message = m) ↔
      (Visit.column name).Faults fields values m := by
  constructor
  · rintro ⟨fault, h, rfl⟩
    unfold columnValue at h
    dsimp only at h
    split at h
    · next hnull =>
      cases h
      exact .missing hnull
    · next hnull =>
      split at h
      · cases h
      · next hnone =>
        split at h
        · next htext =>
          cases h
          exact .notNumeric (Bool.eq_false_iff.2 hnull) hnone htext rfl
        · cases h
      · cases h
  · intro h
    cases h with
    | missing hnull => exact ⟨.missing name, if_pos hnull, rfl⟩
    | notNumeric hnull hnone htext hshown =>
      refine ⟨.notNumeric name (fields.cell name), ?_, by rw [hshown]; rfl⟩
      unfold columnValue
      dsimp only
      rw [hnull, hnone, if_neg Bool.false_ne_true]
      exact if_pos htext

theorem Visit.step_eq_fault_iff {v : Visit} {values : List Number} {m : String} :
    (∃ fault, v.step fields values = .error (.evaluation fault) ∧ fault.message = m) ↔
      v.Faults fields values m := by
  cases v with
  | literal x =>
    refine ⟨?_, nofun⟩
    rintro ⟨fault, h, -⟩
    cases h
  | column name =>
    rw [← columnValue_eq_fault_iff]
    exact exists_congr fun fault => and_congr_left' Outcome.map_eq_error
  | negation =>
    refine ⟨?_, nofun⟩
    rintro ⟨fault, h, -⟩
    cases values <;> cases h
  | operation op =>
    rcases values with - | ⟨b, - | ⟨a, values⟩⟩
    · exact ⟨fun ⟨_, h, _⟩ => (nomatch h), nofun⟩
    · exact ⟨fun ⟨_, h, _⟩ => (nomatch h), nofun⟩
    · constructor
      · rintro ⟨fault, h, rfl⟩
        obtain ⟨rfl, hzero, rfl⟩ := Operator.apply_eq_fault_iff.1 (Outcome.map_eq_error.1 h)
        exact .zeroDivision hzero
      · intro h
        cases h with
        | zeroDivision hzero =>
          refine ⟨.zeroDivision, Outcome.map_eq_error.2 ?_, rfl⟩
          exact Operator.apply_eq_fault_iff.2 ⟨rfl, hzero, rfl⟩

/-- An evaluation fails where the first of its visits fails. -/
theorem value_eq_error_iff {e : Error} :
    t.value fields = .error e ↔
      ∃ before v after values, t.visits = before ++ v :: after ∧
        before.foldlM (Visit.step fields) [] = .ok values ∧ v.step fields values = .error e := by
  rw [← Outcome.foldlM_eq_error, foldlM_visits, Outcome.map_eq_error]


/-- What fails without being a fault of the row: a number beyond the numbers at hand,
or a cell that is no number and has no text. -/
theorem Visit.eq_of_step_eq_error {v : Visit} {values : List Number} {e : Error}
    (h : v.step fields values = .error e) :
    (∃ fault, e = .evaluation fault) ∨ e = .overflow ∨ e = .conversion .badValue := by
  cases v with
  | literal x => cases h
  | column name =>
    have hcolumn := Outcome.map_eq_error.1 h
    unfold columnValue at hcolumn
    dsimp only at hcolumn
    split at hcolumn
    · exact .inl ⟨_, (Except.error.inj hcolumn).symm⟩
    split at hcolumn
    · cases hcolumn
    · split at hcolumn
      · exact .inl ⟨_, (Except.error.inj hcolumn).symm⟩
      · exact .inr (.inr (Except.error.inj hcolumn).symm)
    · next hstrict =>
      rw [Cell.eq_overflow_of_strictNumber hstrict] at hcolumn
      exact .inr (.inl (Except.error.inj hcolumn).symm)
  | negation => cases values <;> cases h
  | operation op =>
    rcases values with - | ⟨b, - | ⟨a, values⟩⟩
    · cases h
    · cases h
    · have happly := Outcome.map_eq_error.1 h
      have hcalculated := op.calculated_apply a b
      rw [happly] at hcalculated
      cases hcalculated with
      | zeroDivision => exact .inl ⟨_, rfl⟩
      | overflow => exact .inr (.inl rfl)

/-! ### Meaning -/

/-- The number that a tree stands for on a row. -/
inductive Tree.Means (fields : Fields) : Tree → Number → Prop
  | literal (x : Float) : Means fields (.literal x) (.real x)
  | column {name : String} {m : Number} : (fields.cell name).strictNumber = .ok (some m) →
      Means fields (.column name) m
  | negate {u : Tree} {m : Number} : Means fields u m → Means fields (.negate u) m.neg
  | binary {o : Operator} {l r : Tree} {j k m : Number} : Means fields l j → Means fields r k →
      o.Makes j k m → Means fields (.binary o l r) m

/-- An evaluation gives exactly what the tree stands for. -/
theorem value_eq_ok_iff : t.value fields = .ok n ↔ t.Means fields n := by
  induction t generalizing n with
  | literal x =>
    constructor
    · rintro ⟨⟩
      exact .literal x
    · rintro ⟨⟩
      rfl
  | column name =>
    refine columnValue_eq_ok_iff.trans ⟨.column, ?_⟩
    rintro ⟨⟩
    assumption
  | negate t ih =>
    constructor
    · intro h
      obtain ⟨m, hm, h⟩ := Outcome.bind_eq_ok.1 h
      cases h
      exact .negate (ih.1 hm)
    · rintro (_ | _ | ⟨h⟩)
      rw [Tree.value, ih.2 h]
      rfl
  | binary op l r ihl ihr =>
    constructor
    · intro h
      obtain ⟨a, ha, h⟩ := Outcome.bind_eq_ok.1 h
      obtain ⟨b, hb, h⟩ := Outcome.bind_eq_ok.1 h
      exact .binary (ihl.1 ha) (ihr.1 hb) (Operator.apply_eq_ok_iff.1 h)
    · rintro (_ | _ | _ | ⟨hl, hr, hmakes⟩)
      rw [Tree.value, ihl.2 hl, ihr.2 hr]
      exact Operator.apply_eq_ok_iff.2 hmakes

/-- The operators of a tree, each with its sides. -/
def Tree.operations : Tree → List (Operator × Tree × Tree)
  | literal _ => []
  | column _ => []
  | negate t => t.operations
  | binary op l r => l.operations ++ r.operations ++ [(op, l, r)]

/-- A value has been made with no divisor that is zero. -/
theorem exists_divisor_of_value (h : t.value fields = .ok n) {l r : Tree}
    (hmem : (.divide, l, r) ∈ t.operations) : ∃ b, r.value fields = .ok b ∧ b.isZero = false := by
  induction t generalizing n with
  | literal x => cases hmem
  | column name => cases hmem
  | negate t ih =>
    obtain ⟨m, hm, -⟩ := Outcome.bind_eq_ok.1 h
    exact ih hm hmem
  | binary op l' r' ihl ihr =>
    obtain ⟨a, ha, hrest⟩ := Outcome.bind_eq_ok.1 h
    obtain ⟨b, hb, happly⟩ := Outcome.bind_eq_ok.1 hrest
    simp only [Tree.operations, List.mem_append, List.mem_singleton] at hmem
    rcases hmem with (hmem | hmem) | hmem
    · exact ihl ha hmem
    · exact ihr hb hmem
    · cases hmem
      exact ⟨b, hb, (Operator.apply_eq_ok_iff.1 happly).isZero rfl⟩

/-- Where the columns hold numbers, no divisor is zero and nothing is beyond the
numbers at hand, there is a value. -/
theorem exists_value
    (hcolumns : ∀ name ∈ t.names, ∃ m, (fields.cell name).strictNumber = .ok (some m))
    (hoperations : ∀ op l r, (op, l, r) ∈ t.operations → ∀ a b, l.value fields = .ok a →
      r.value fields = .ok b → (op = .divide → b.isZero = false) ∧ ¬ op.Overflows a b) :
    ∃ n, t.value fields = .ok n := by
  induction t with
  | literal x => exact ⟨.real x, rfl⟩
  | column name =>
    obtain ⟨m, hm⟩ := hcolumns name List.mem_cons_self
    exact ⟨m, columnValue_of_some hm⟩
  | negate t ih =>
    obtain ⟨m, hm⟩ := ih hcolumns hoperations
    exact ⟨m.neg, by rw [Tree.value, hm]; rfl⟩
  | binary op l r ihl ihr =>
    obtain ⟨hl, hr⟩ := List.forall_mem_append.1 hcolumns
    obtain ⟨a, ha⟩ := ihl hl fun op' l' r' hmem => hoperations op' l' r'
      (List.mem_append_left _ (List.mem_append_left _ hmem))
    obtain ⟨b, hb⟩ := ihr hr fun op' l' r' hmem => hoperations op' l' r'
      (List.mem_append_left _ (List.mem_append_right _ hmem))
    obtain ⟨hzero, hoverflow⟩ := hoperations op l r
      (List.mem_append_right _ List.mem_cons_self) a b ha hb
    obtain ⟨n, hn⟩ := Operator.exists_apply hzero hoverflow
    exact ⟨n, by rw [Tree.value, ha, hb]; exact hn⟩

/-- An evaluation visits the operands of a tree from left to right and skips none.  It
has a value only where all columns hold numbers and no divisor is zero, and the value
is what the tree stands for.  If the row is at fault, the message is about the first
visit that is; and if it is not, and nothing is beyond the numbers at hand, then
there is a value.  Division by zero never shows but as a fault of the row. -/
theorem value_in_order (f : Formula) (fields : Fields) :
    f.tree.visits.foldlM (Visit.step fields) [] = (f.value fields).map ([·]) ∧
    (∀ n, f.value fields = .ok n ↔ f.tree.Means fields n) ∧
    (∀ n, f.value fields = .ok n →
      (∀ name ∈ f.tree.names, name ∈ fields.names ∧ (fields.cell name).isNull = false ∧
        ∃ m, (fields.cell name).strictNumber = .ok (some m)) ∧
      ∀ l r, (.divide, l, r) ∈ f.tree.operations →
        ∃ b, r.value fields = .ok b ∧ b.isZero = false) ∧
    (∀ m, (∃ fault, f.value fields = .error (.evaluation fault) ∧
        (Error.evaluation fault).message = m) ↔
      ∃ before v after values, f.tree.visits = before ++ v :: after ∧
        before.foldlM (Visit.step fields) [] = .ok values ∧ v.Faults fields values m) ∧
    ((∀ name ∈ f.tree.names, ∃ m, (fields.cell name).strictNumber = .ok (some m)) →
      (∀ op l r, (op, l, r) ∈ f.tree.operations → ∀ a b, l.value fields = .ok a →
        r.value fields = .ok b → (op = .divide → b.isZero = false) ∧ ¬ op.Overflows a b) →
      ∃ n, f.value fields = .ok n ∧ f.tree.Means fields n) ∧
    (∀ e, f.value fields = .error e →
      (∃ fault, e = .evaluation fault) ∨ e = .overflow ∨ e = .conversion .badValue) := by
  refine ⟨foldlM_visits fields f.tree [], fun n => value_eq_ok_iff, fun n hn => ⟨?_, ?_⟩, ?_, ?_,
    ?_⟩
  · intro name hname
    obtain ⟨m, hm⟩ := Tree.columnValue_of_value hn name hname
    rw [columnValue_eq_ok_iff] at hm
    have hnull : (fields.cell name).isNull = false := Bool.eq_false_iff.2 fun hnull => by
      rw [Cell.eq_null_of_isNull hnull] at hm
      cases hm
    exact ⟨Fields.mem_names_of_cell hnull, hnull, m, hm⟩
  · exact fun l r hmem => exists_divisor_of_value hn hmem
  · intro m
    constructor
    · rintro ⟨fault, h, hm⟩
      obtain ⟨before, v, after, values, hvisits, hbefore, hstep⟩ := value_eq_error_iff.1 h
      exact ⟨before, v, after, values, hvisits, hbefore,
        Visit.step_eq_fault_iff.1 ⟨fault, hstep, hm⟩⟩
    · rintro ⟨before, v, after, values, hvisits, hbefore, hfaults⟩
      obtain ⟨fault, hstep, hm⟩ := Visit.step_eq_fault_iff.2 hfaults
      exact ⟨fault, value_eq_error_iff.2 ⟨before, v, after, values, hvisits, hbefore, hstep⟩, hm⟩
  · intro hcolumns hoperations
    obtain ⟨n, hn⟩ := exists_value hcolumns hoperations
    exact ⟨n, hn, value_eq_ok_iff.1 hn⟩
  · intro e he
    obtain ⟨_, v, _, values, -, -, hstep⟩ := value_eq_error_iff.1 he
    exact Visit.eq_of_step_eq_error hstep

/-- A product with a column that is missing, beside a zero; a quotient whose divisor
comes to zero; and an exact product and a quotient of whole numbers. -/
theorem value_in_order_whole :
    let row : Fields := [("a", .number (.whole (tenTo 100))), ("b", .number (.whole 2))]
    let difference : Tree := .binary .minus (.column "b") (.column "b")
    (∃ fault, value ⟨"0 * m", .binary .times (.literal 0) (.column "m"), ["m"]⟩ row
        = .error (.evaluation fault) ∧
      (Error.evaluation fault).message = "Column 'm' is missing") ∧
    (∃ fault, value ⟨"a / (b - b)", .binary .divide (.column "a") difference, ["a", "b"]⟩ row
        = .error (.evaluation fault) ∧ (Error.evaluation fault).message = "Division by zero") ∧
    value ⟨"a * a", .binary .times (.column "a") (.column "a"), ["a"]⟩ row
      = .ok (.whole (tenTo 100 * tenTo 100)) ∧
    ∃ n, value ⟨"a / b", .binary .divide (.column "a") (.column "b"), ["a", "b"]⟩ row = .ok n := by
  intro row difference
  have hreach : tenTo 100 < Real.reach := by decide +kernel
  have ha : (row.cell "a").strictNumber = .ok (some (.whole (tenTo 100))) :=
    Cell.strictNumber_whole hreach
  have hb : (row.cell "b").strictNumber = .ok (some (.whole 2)) :=
    Cell.strictNumber_whole (Nat.lt_of_le_of_lt (by decide) hreach)
  refine ⟨?_, ?_, ?_, ?_⟩
  · refine ((value_in_order _ row).2.2.2.1 _).2 ⟨[.literal 0], _, _, _, rfl, rfl, ?_⟩
    exact .missing rfl
  · have hzero : Operator.minus.Makes (.whole 2) (.whole 2) (.whole (2 - 2)) := .wholes rfl
    have hdifference : difference.value row = .ok (.whole 0) :=
      value_eq_ok_iff.2 (.binary (.column hb) (.column hb) hzero)
    have hrun : (Visit.column "a" :: difference.visits).foldlM (Visit.step row) []
        = .ok [.whole 0, .whole (tenTo 100)] := by
      rw [List.foldlM_cons]
      refine Outcome.bind_eq_ok.2 ⟨_, Visit.step_column [] ha, ?_⟩
      rw [foldlM_visits, hdifference]
      rfl
    exact ((value_in_order _ row).2.2.2.1 _).2 ⟨_, _, _, _, rfl, hrun, .zeroDivision rfl⟩
  · refine ((value_in_order _ row).2.1 _).2 ?_
    exact .binary (.column ha) (.column ha) (.wholes rfl)
  · have hcolumns : ∀ name ∈ ["a", "b"], ∃ m, (row.cell name).strictNumber = .ok (some m) :=
      List.forall_mem_cons.2 ⟨⟨_, ha⟩, List.forall_mem_singleton.2 ⟨_, hb⟩⟩
    have hquotient : ¬ Operator.divide.Overflows (.whole (tenTo 100)) (.whole 2) := by
      intro h
      cases h with
      | quotient hnone =>
        have hsome := Real.quotient?_isSome (a := tenTo 100) (b := 2) hreach (by decide)
        rw [hnone] at hsome
        cases hsome
      | reals hmeet => cases hmeet
      | words hmeet => cases hmeet
    let quotient : Formula := ⟨"a / b", .binary .divide (.column "a") (.column "b"), ["a", "b"]⟩
    obtain ⟨n, hn, -⟩ :=
        (value_in_order quotient row).2.2.2.2.1 hcolumns fun op l r hmem a b hl hr => by
      cases List.mem_singleton.1 hmem
      cases (columnValue_of_some ha).symm.trans hl
      cases (columnValue_of_some hb).symm.trans hr
      exact ⟨fun _ => rfl, hquotient⟩
    exact ⟨n, hn⟩

end Formula

end Gridbook
