/-
Gridbook/Formula/Tree.lean

The tree of a formula, and the parser that builds it from tokens.

The parser reads one token at a time.  Its state says whether an operand has to
come next or one has just been completed, and keeps on a stack what the
completed operand will be a part of: an open parenthesis, a negation, or an
operator with its left side.  An operator first completes the parts that bind
at least as tightly, so `*` and `/` come before `+` and `-`, both group to the
left, and a negation binds tightest.

On its way the parser notes the names that it takes for operands.  They are the
columns of the formula, and nobody looks at the tree for them.
-/
import Gridbook.Formula.Token
import Gridbook.Text.Sorted

namespace Gridbook.Formula

inductive Tree where
  | literal (x : Float)
  | column (name : String)
  | negate (operand : Tree)
  | binary (op : Operator) (left right : Tree)
deriving Repr

/-! ### The parser's state -/

/-- What a completed operand will be a part of. -/
inductive Frame where
  | opened
  | negation
  /-- The left side of `*` or `/`. -/
  | factor (op : Operator) (left : Tree)
  /-- The left side of `+` or `-`. -/
  | summand (op : Operator) (left : Tree)
deriving Repr

/-- Between two tokens. -/
inductive State where
  /-- An operand has to come. -/
  | before (stack : List Frame)
  /-- An operand has just been completed. -/
  | after (stack : List Frame) (operand : Tree)
deriving Repr

/-- Complete the negations and the product that an operand ends. -/
def closeFactors : List Frame → Tree → List Frame × Tree
  | .negation :: stack, t => closeFactors stack (.negate t)
  | .factor op left :: stack, t => closeFactors stack (.binary op left t)
  | stack, t => (stack, t)

/-- Complete all that an operand ends, up to an open parenthesis. -/
def closeSummands (stack : List Frame) (t : Tree) : List Frame × Tree :=
  match closeFactors stack t with
  | (.summand op left :: stack, t) => (stack, .binary op left t)
  | r => r

/-- Is a parenthesis open? -/
def anyOpened (stack : List Frame) : Bool :=
  stack.any fun
    | .opened => true
    | _ => false

/-- The fault of a token that cannot come. -/
def Placed.unexpected (p : Placed) : SyntaxFault :=
  .badToken (String.ofList p.token.text) p.place

/-! ### Reading tokens -/

/-- The state after a token. -/
def step : State → Placed → Except SyntaxFault State
  | .before stack, p =>
    match p.token with
    | .number l => .ok (.after stack (.literal l.toReal))
    | .name cs => .ok (.after stack (.column (String.ofList cs)))
    | .opening => .ok (.before (.opened :: stack))
    | .operator .minus => .ok (.before (.negation :: stack))
    | _ => .error p.unexpected
  | .after stack t, p =>
    match p.token with
    | .operator .plus =>
      let (stack, t) := closeSummands stack t
      .ok (.before (.summand .plus t :: stack))
    | .operator .minus =>
      let (stack, t) := closeSummands stack t
      .ok (.before (.summand .minus t :: stack))
    | .operator op =>
      let (stack, t) := closeFactors stack t
      .ok (.before (.factor op t :: stack))
    | .closing =>
      match closeSummands stack t with
      | (.opened :: stack, t) => .ok (.after stack t)
      | _ => .error p.unexpected
    | _ => .error (if anyOpened stack then .unclosed else p.unexpected)

/-- The tree, if the tokens may end here. -/
def finish : State → Except SyntaxFault Tree
  | .before _ => .error .badEnd
  | .after stack t =>
    match closeSummands stack t with
    | ([], t) => .ok t
    | _ => .error .unclosed

/-! ### Noting names -/

/-- The names that are noted after a token: a name is an operand where one has to
come. -/
def State.noted : State → Token → List String → List String
  | .before _, .name cs, columns => Text.insertDistinct (String.ofList cs) columns
  | _, _, columns => columns

/-- The parser between two tokens. -/
structure Parser where
  state : State
  /-- The names noted so far, in increasing order. -/
  columns : List String
deriving Repr

/-- Before the first token. -/
def Parser.start : Parser :=
  ⟨.before [], []⟩

/-- Read a token. -/
def Parser.read (p : Parser) (t : Placed) : Except SyntaxFault Parser := do
  return ⟨← step p.state t, p.state.noted t.token p.columns⟩

end Gridbook.Formula
