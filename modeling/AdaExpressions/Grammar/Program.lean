import AdaExpressions.Grammar.Failure
import AdaExpressions.Grammar.Rule

/-!
# Rule programs

The body of a rule is a program over a few instructions: look at the kinds of the next two tokens,
take a token, fail, try a part and go on without it, repeat, call a rule. A program is data, so what
holds of every rule is shown once, by induction on programs. No instruction shows an index into the
buffer, so a rule reads alike wherever it starts; the bodies of the rules decide by kinds alone.
-/

namespace AdaExpressions

/-- The first and the last token that a part of a program consumed. -/
structure Extent where
  first : Token
  last : Token
  deriving DecidableEq, Repr

def Extent.span (extent : Extent) : Span :=
  extent.first.span.join extent.last.span

inductive Program : Type → Type 1
  | yield {α : Type} (value : α) : Program α
  | andThen {α β : Type} (first : Program α) (next : α → Program β) : Program β
  /-- Fails at the current token. -/
  | fail {α : Type} (objection : Objection) : Program α
  /-- Consumes the current token if it is of this kind, and fails if it is not. -/
  | take (kind : Kind) : Program Token
  /-- The kinds of the current token and of the one after it. -/
  | peek : Program (Kind × Kind)
  /-- Fails at `token` if the options reject the violation. -/
  | forbid (violation : Violation) (token : Token) : Program Unit
  /-- Runs a part; a recoverable failure is noted, the part undone and nothing yielded. -/
  | attempt {α : Type} (part : Program α) : Program (Option α)
  /-- Runs a part and yields what it consumed beside its value. -/
  | extent {α : Type} (part : Program α) : Program (α × Extent)
  /-- Runs a step on the state as long as it yields a new state. -/
  | iterate {σ : Type} (state : σ) (step : σ → Program (Option σ)) : Program σ
  /-- Runs a rule, or yields what was remembered under the key at this position. -/
  | remember (key : MemoKey) (rule : ExprRule) : Program Expr
  | call (rule : Rule) : Program rule.Node

namespace Program

instance : Monad Program where
  pure := .yield
  bind := .andThen

def expr (rule : ExprRule) : Program Expr :=
  .call (.expr rule)

def nextKind : Program Kind := do
  let (kind, _) ← peek
  return kind

/-- Takes the current token if its kind is one of `kinds`. -/
def takeOneOf (label : String) (kinds : List Kind) : Program Token := do
  let kind ← nextKind
  if kinds.contains kind then take kind else fail (.noAlternative label (kinds.map Kind.spelling))

/-- Runs `first`, or `second` if that fails. -/
def orElse {α : Type} (first second : Program α) : Program α := do
  let some value ← attempt first | second
  return value

/-- The value of the first part that does not fail. -/
def firstOf {α : Type} : List (Program α) → Program (Option α)
  | [] => return none
  | part :: more => do
      let some value ← attempt part | firstOf more
      return some value

/-- An item and further ones, each after a separator. A separator with no item after it is left. -/
def separated {α : Type} (separator : Kind) (item : Program α) : Program (List α) := do
  let first ← item
  let rest ← iterate [] fun items => do
    if (← nextKind) = separator then
      let some item ← attempt (do let _ ← take separator; item) | return none
      return some (item :: items)
    else
      return none
  return first :: rest.reverse

def parenthesized {α : Type} (inner : Program α) : Program α := do
  let _ ← take .openParen
  let value ← inner
  let _ ← take .closeParen
  return value

/-! ### Operators -/

/-- The operator of the table that comes next. -/
def nextOperator (table : List Op) : Program (Option Op) := do
  let (first, second) ← peek
  return Op.next? table first second

def takeAll : List Kind → Program Unit
  | [] => return ()
  | kind :: more => do
      let _ ← take kind
      takeAll more

def takeOperator (op : Op) : Program Extent := do
  let (_, words) ← extent (takeAll op.words)
  return words

/-- The operator and what `right` reads after it, or nothing, the operator included. -/
def attemptRight {α : Type} (op : Op) (right : Program α) : Program (Option (Extent × α)) :=
  attempt do
    let words ← takeOperator op
    let value ← right
    return (words, value)

/-- The next operator of the table and its right operand, joined to what stands left of it. -/
def chainStep (table : List Op) (right : ExprRule) (left : Expr) : Program (Option Expr) := do
  let some op ← nextOperator table | return none
  let some (_, operand) ← attemptRight op (expr right) | return none
  return some (.ofBinary left op operand)

/-- Reads operands joined by operators of the table into a tree that nests to the left. -/
def leftChain (table : List Op) (first right : ExprRule) : Program Expr := do
  let operand ← expr first
  iterate operand (chainStep table right)

/-- An operand behind a prefixed operator of the table, or one without. -/
def unary (table : List Op) (operand : ExprRule) (plain : Program Expr) : Program Expr := do
  let some op ← nextOperator table | plain
  let words ← takeOperator op
  let operand ← expr operand
  return .ofUnary op words.span operand

end Program

end AdaExpressions
