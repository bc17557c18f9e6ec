import AdaExpressions.Grammar.Name

/-!
# Choices, associations and aggregates

```text
discrete_range   →  simple_expr .. simple_expr
choice           →  discrete_range | expression | others
choice_list      →  choice { | choice }
call_suffix      →  discrete_range | param_assoc { , param_assoc }
param_assoc      →  [ (identifier | others | string_literal) => ] (expression | <>)
aggregate        →  ( [ expression with ] (null record | aggregate_assoc { , aggregate_assoc }) )
aggregate_assoc  →  [ choice_list => ] (<> | expression)
```
-/

namespace AdaExpressions.Grammar

open Program

def discreteRange : Program Expr := do
  let low ← expr .simpleExpr
  let _ ← take .dotDot
  let high ← expr .simpleExpr
  return .ofBinary low .range high

def choice : Program Choice := do
  let some inner ← firstOf [expr .discreteRange, expr .expression]
    | if (← nextKind) = .kwOthers then
        let others ← take .kwOthers
        return .others others.span
      else
        fail (.noAlternative "choice" ["discrete_range", "expression", "others"])
  return .expr inner

def choiceList : Program (List Choice) :=
  separated .pipe (call .choice)

/-- From the start of the first association to the end of the last. -/
def associationsSpan : List Association → Span
  | [] => default
  | first :: more => first.span.join ((first :: more).getLast (by simp)).span

/-- What stands for the default value. -/
def box : Program Expr := do
  let token ← take .diamond
  return .box token.span

/-! ### Parameters -/

def parameterDesignator : Program Designator := do
  let kind ← nextKind
  if kind = .kwOthers then
    let others ← take .kwOthers
    return .others others.span
  else
    let ident ← staticPart
    return .name ident

def parameterAssociation : Program Association := do
  let designator ← attempt do
    let designator ← parameterDesignator
    let _ ← take .arrow
    return designator
  let value ← orElse (expr .expression) box
  return .of designator value

def callSuffix : Program CallSuffix := do
  let some bounds ← attempt (expr .discreteRange)
    | let associations ← separated .comma (call .parameterAssociation)
      return .parameters associations (associationsSpan associations)
  return .range bounds

/-! ### Aggregates -/

def aggregateDesignator : Program Designator := do
  let (choices, list) ← extent (call .choiceList)
  let _ ← take .arrow
  return .ofChoices choices list.span

def aggregateAssociation : Program Association := do
  let designator ← attempt aggregateDesignator
  let value ← if (← nextKind) = .diamond then box else expr .expression
  return .of designator value

def aggregateContent : Program AggregateContent := do
  if (← peek) = (.kwNull, .kwRecord) then
    let null ← take .kwNull
    let record ← take .kwRecord
    return .nullRecord (null.span.join record.span)
  else
    let associations ← separated .comma (call .aggregateAssociation)
    return .fields associations (associationsSpan associations)

def aggregate : Program Expr := do
  let ((ancestor, content), whole) ← extent <| parenthesized do
    let ancestor ← attempt do
      let ancestor ← expr .expression
      let _ ← take .kwWith
      return ancestor
    let content ← aggregateContent
    return (ancestor, content)
  return .aggregate ancestor content whole.span

end AdaExpressions.Grammar
