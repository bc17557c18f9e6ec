import AdaExpressions.Grammar.Program

/-!
# Conditional expressions, allocators and raise expressions

```text
parenthesized  →  ( (conditional_expression | expression) )
conditional    →  if_expression | case_expression | quantified_expression
if             →  if expression then expression { elsif expression then expression }
                  [ else expression ]
case           →  case expression is alternative { , alternative }
alternative    →  when choice_list => expression
quantified     →  for (all | some) loop_spec => (discrete_range | expression)
loop_spec      →  identifier (in | of) [ reverse ]
                  (name range discrete_range | discrete_range | expression)
allocator      →  new [ ( name ) ] name
raise          →  raise [ name [ with expression ] ]
```
-/

namespace AdaExpressions.Grammar

open Program

/-- The parentheses leave no node. -/
def parenthesizedExpr : Program Expr :=
  parenthesized (orElse (expr .conditional) (expr .expression))

/-! ### If expressions -/

def consequence : Program (Expr × Expr) := do
  let condition ← expr .expression
  let _ ← take .kwThen
  let consequence ← expr .expression
  return (condition, consequence)

def elsifParts : Program (List ElsifPart) := do
  let parts ← iterate [] fun parts => do
    if (← nextKind) = .kwElsif then
      let word ← take .kwElsif
      let (condition, consequence) ← consequence
      let part : ElsifPart := .mk condition consequence (word.span.join consequence.span)
      return some (part :: parts)
    else
      return none
  return parts.reverse

def elsePart : Program (Option Expr) := do
  if (← nextKind) = .kwElse then
    let _ ← take .kwElse
    let alternative ← expr .expression
    return some alternative
  else
    return none

def ifExpr : Program Expr := do
  let ((condition, consequence, elsifs, alternative), whole) ← extent do
    let _ ← take .kwIf
    let (condition, consequence) ← consequence
    let elsifs ← elsifParts
    let alternative ← elsePart
    return (condition, consequence, elsifs, alternative)
  return .ifExpr condition consequence elsifs alternative whole.span

/-! ### Case expressions -/

def caseAlternative : Program CaseAlternative := do
  let word ← take .kwWhen
  let choices ← call .choiceList
  let _ ← take .arrow
  let value ← expr .expression
  return .mk choices value (word.span.join value.span)

def caseExpr : Program Expr := do
  let ((subject, alternatives), whole) ← extent do
    let _ ← take .kwCase
    let subject ← expr .expression
    let _ ← take .kwIs
    let alternatives ← separated .comma caseAlternative
    return (subject, alternatives)
  return .caseExpr subject alternatives whole.span

/-! ### Quantified expressions -/

def constrainedSubtype : Program IterationSource := do
  let mark ← expr .name
  let _ ← take .kwRange
  let constraint ← expr .discreteRange
  return .constrained mark constraint (mark.span.join constraint.span)

def iterationSource : Program IterationSource :=
  orElse constrainedSubtype do
    let source ← orElse (expr .discreteRange) (expr .expression)
    return .expr source

def reversed : Program Bool := do
  if (← nextKind) = .kwReverse then
    let _ ← take .kwReverse
    return true
  else
    return false

def loopSpec : Program LoopSpec := do
  let token ← take .identifier
  let word ← takeOneOf "iteration kind" [.kwIn, .kwOf]
  let iteration : Iteration := if word.kind = .kwIn then .values else .elements
  let reversed ← reversed
  let source ← iterationSource
  return .mk ⟨.identifier, token⟩ iteration reversed source (token.span.join source.span)

def quantified : Program Expr := do
  let start ← take .kwFor
  let word ← takeOneOf "quantifier" [.kwAll, .kwSome]
  let quantifier : Quantifier := if word.kind = .kwAll then .universal else .existential
  let loop ← call .loopSpec
  let _ ← take .arrow
  let body ← orElse (expr .discreteRange) (expr .expression)
  return .quantified quantifier loop body (start.span.join body.span)

/-! ### Allocators and raise expressions -/

def allocator : Program Expr := do
  let start ← take .kwNew
  let subpool ← attempt (parenthesized (expr .name))
  let designated ← expr .name
  return .allocator subpool designated (start.span.join designated.span)

/-- A message is only read after the name of an exception. -/
def raiseParts : Program (Option Expr × Option Expr) := do
  let _ ← take .kwRaise
  let some exception ← attempt (expr .name) | return (none, none)
  let message ← attempt (do let _ ← take .kwWith; expr .expression)
  return (some exception, message)

def raiseExpr : Program Expr := do
  let ((exception, message), whole) ← extent raiseParts
  return .raise exception message whole.span

end AdaExpressions.Grammar
