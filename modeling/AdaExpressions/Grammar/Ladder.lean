import AdaExpressions.Grammar.Program

/-!
# The ladder of operators

From the loosest to the tightest level:

```text
expression  →  relation { logical_operator relation }
relation    →  simple_expr { comparison simple_expr } [ membership_operator choice_list ]
simple_expr →  unop_term { (+ | - | &) term }
unop_term   →  (+ | -) term | term
term        →  factor { (* | / | mod | rem) factor }
factor      →  (abs | not) primary | primary [ ** primary ]
```

An operator with no operand after it is left unread. Logical, adding and multiplying chains nest to
the left, comparisons to the right; a membership test applies to the last operand compared.
-/

namespace AdaExpressions.Grammar

open Program

/-- The next relation of a chain, joined to what stands left of it. From the second operator on,
another operator than the one before it is a violation. -/
def logicalStep : Expr × Option Op → Program (Option (Expr × Option Op))
  | (left, previous) => do
      let some op ← nextOperator Op.logical | return none
      let some (words, operand) ← attemptRight op (expr .relation) | return none
      match previous with
      | some previous => if previous ≠ op then forbid (.mixed previous op) words.first
      | none => pure ()
      return some (.ofBinary left op operand, some op)

def logicalChain : Program Expr := do
  let operand ← expr .relation
  let (chain, _) ← iterate (operand, none) logicalStep
  return chain

/-- Operands with the comparison after each, last first. -/
abbrev Compared := List (Expr × Op)

/-- Comparisons nest to the right: the last operand is the innermost. -/
def nestCompared (compared : Compared) (last : Expr) : Expr :=
  compared.foldl (fun relation (left, op) => .ofBinary left op relation) last

/-- An operator after operands that are already compared chains relations. -/
def forbidChained (compared : Compared) (op : Op) (words : Extent) : Program Unit :=
  if compared.isEmpty then pure () else forbid (.chained op) words.first

/-- The next operand that is compared. -/
def comparisonStep : Compared × Expr → Program (Option (Compared × Expr))
  | (compared, last) => do
      let some op ← nextOperator Op.relational | return none
      let some (words, operand) ← attemptRight op (expr .simpleExpr) | return none
      forbidChained compared op words
      return some ((last, op) :: compared, operand)

/-- A membership test of the last operand, if there is one. -/
def membershipTest (compared : Compared) (tested : Expr) : Program Expr := do
  let some op ← nextOperator Op.membership | return tested
  let some (words, choices) ← attemptRight op (call .choiceList) | return tested
  forbidChained compared op words
  let last := (choices.getLast?.map Choice.span).getD words.span
  return .membership tested op choices (tested.span.join last)

/-- A relation behind operands that are already compared. -/
def relationFrom (compared : Compared) : Program Expr := do
  let operand ← expr .simpleExpr
  let (compared, last) ← iterate (compared, operand) comparisonStep
  let last ← membershipTest compared last
  return nestCompared compared last

def relation : Program Expr :=
  relationFrom []

def addingChain : Program Expr :=
  leftChain Op.adding .unopTerm .term

def unopTerm : Program Expr :=
  unary Op.unaryAdding .term (expr .term)

def term : Program Expr :=
  leftChain Op.multiplying .factor .factor

/-- Exponentiation does not associate: a second `**` is left unread. -/
def power : Program Expr := do
  let base ← expr .primary
  let some op ← nextOperator Op.exponent | return base
  let some (_, exponent) ← attemptRight op (expr .primary) | return base
  return .ofBinary base op exponent

def factor : Program Expr :=
  unary Op.highestUnary .primary power

end AdaExpressions.Grammar
