/-
Gridbook/Store/Condition.lean

Conditions on rows, as the store tests them.  A filter becomes a condition when
its value is bound; a value that the store has no scalar for is refused.

An equality compares scalars without conversion, a comparison reads the row's
scalar as a double, and a search reads it as text.  Every number comes before
every text.  Null meets no condition but the one that asks for null.
-/
import Gridbook.Filter
import Gridbook.Store.Basic
import Gridbook.Store.Pattern

namespace Gridbook

/-- What a column's scalar is tested for. -/
inductive Test where
  | isNull
  | isPresent
  | equals (v : Native)
  | greater (bound : Native)
  | less (bound : Native)
  | contains (needle : List Char)
deriving Repr

/-- A test on a column. -/
structure Condition where
  path : List Path.Step
  test : Test
deriving Repr

/-! ### Binding -/

/-- The longest search pattern in bytes. -/
def longestPattern : Nat := 50000

/-- The bytes of a search pattern: a mark at each end, and one before every
character that has a meaning in patterns. -/
def patternSize (needle : List Char) : Nat :=
  needle.foldl (fun n c => n + c.utf8Size + if c = '%' ∨ c = '_' ∨ c = '/' then 1 else 0) 2

/-- A whole number as a scalar. -/
def Native.bindWhole (n : Int) : Except Store.Failure Native :=
  if fitsWord n then .ok (number (.whole n)) else .error .overflow

/-- A double as a scalar; what is not a number is null. -/
def Native.bindReal (x : Float) : Native :=
  if x.isNaN then null else number (.real x)

/-- A value of an equality as a scalar.  The store has none for words and bits,
and these equal nothing. -/
def Native.bind : Cell → Except Store.Failure Native
  | .null => .ok null
  | .bool b => .ok (number (.whole (if b then 1 else 0)))
  | .number (.whole n) => bindWhole n
  | .number (.word _) => .ok null
  | .number (.real x) => .ok (bindReal x)
  | .text s => .ok (text s.toList)
  | .typed (.date d) => .ok (text d.iso)
  | .typed (.instant t) => .ok (text t.stamp)
  | .typed (.bit _) => .ok null
  | .typed (.double x) => .ok (bindReal x)
  | .typed (.string s) => .ok (text s.toList)
  | _ => .error .failed

/-- A text beside a double: the number that it is, if it is one between blanks,
else the text. -/
def Native.ofNumeral (s : String) : Native :=
  let cs := s.toList
  let trimmed := Text.trimBy Text.isAsciiBlank cs
  let (sign, digits) := Literal.splitSign trimmed
  let n : Int := Text.digitsValue digits
  let whole := if sign = ['-'] then -n else n
  if digits ≠ [] && digits.all Char.isDigit && fitsWord whole then number (.whole whole)
  else
    match Numeral.whole? cs with
    | some x => number (.real x)
    | none => text cs

/-- The bound of a comparison as a scalar.  What is neither a number nor a text
nor a date is converted to a double. -/
def Native.bindBound : Cell → Except Store.Failure Native
  | .number (.whole n) => bindWhole n
  | .number (.real x) => .ok (bindReal x)
  | .text s => .ok (ofNumeral s)
  | .typed (.date d) => .ok (text d.iso)
  | .typed (.instant t) => .ok (text t.stamp)
  | c =>
    match c.spelledNumber with
    | .ok x => .ok (bindReal x)
    | .error _ => .error .failed

/-- Can the value be converted to what its comparison needs? -/
def Test.isComparable (op : Comparison) (c : Cell) : Bool :=
  !op.isNumeric ||
    match Native.bindBound c with
    | .error .failed => false
    | _ => true

/-- The test of a comparison with a value. -/
def Test.bind (op : Comparison) (value : Cell) : Except Store.Failure Test :=
  match op with
  | .equal => if value.isNull then .ok .isNull else (Native.bind value).map .equals
  | .greater => (Native.bindBound value).map .greater
  | .less => (Native.bindBound value).map .less
  | .contains => .ok (.contains value.label.toList)

namespace Condition

/-- The condition that a column is not null. -/
def present (column : String) : Condition :=
  ⟨Path.ofColumn column, .isPresent⟩

/-- A filter whose operator is known, with its value bound. -/
def ofFilter (f : Filter) (op : Comparison) : Except Store.Failure Condition :=
  (Test.bind op f.value).map fun t => ⟨Path.ofColumn f.column, t⟩

/-! ### Testing -/

/-- Does a text match a search? -/
def matchesSearch (needle hay : List Char) : Bool :=
  Pattern.admits (Pattern.ofSearch needle) hay

/-- Does a scalar pass a test? -/
def passes (v : Native) : Test → Except Store.Failure Bool
  | .isNull => .ok (v matches .null)
  | .isPresent => .ok !(v matches .null)
  | .equals w => .ok (v.equals w)
  | .greater bound => .ok (bound.isBefore v.asReal)
  | .less bound => .ok (v.asReal.isBefore bound)
  | .contains needle =>
    if longestPattern < patternSize needle then .error .failed
    else .ok ((v.toText?.map (matchesSearch needle)).getD false)

/-- Does a row meet the condition? -/
def holds [Reader] (c : Condition) (fields : Fields) : Except Store.Failure Bool := do
  passes (← Native.extract c.path fields) c.test

/-- Does a row meet all conditions?  They are tested in order, up to the first
that fails. -/
def allHold [Reader] (fields : Fields) : List Condition → Except Store.Failure Bool
  | [] => .ok true
  | c :: cs => do
    if ← c.holds fields then allHold fields cs else return false

end Condition

end Gridbook
