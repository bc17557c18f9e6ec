import AdaExpressions.Grammar.Program

/-!
# Names

```text
name          →  direct_name { step }
direct_name   →  identifier | string_literal | char_literal | all | keyword_attribute
step          →  ( call_suffix )
              |  . direct_name
              |  ' attribute [ ( call_suffix ) ]
              |  ' ( expression )  |  ' aggregate
attribute     →  access | delta | digits | mod | range | identifier
static_name   →  static_part { . static_part }
static_part   →  identifier | string_literal
```

A call suffix is a range or a list of associations; a range, once matched, is not read again as
associations.
-/

namespace AdaExpressions.Grammar

open Program

def ident (form : IdentForm) : Program Ident := do
  let token ← take (if form = .operatorSymbol then .string else .identifier)
  return ⟨form, token⟩

def simpleName (form : IdentForm) : Program Expr := do
  let ident ← ident form
  return .name (.simple ident)

def literal (form : LiteralForm) (kind : Kind) : Program Expr := do
  let token ← take kind
  return .literal form token

def dereference : Program Expr := do
  let token ← take .kwAll
  return .dereference token.span

/-- Attribute designators that are reserved words. -/
def keywordAttribute : Program Expr := do
  let token ← takeOneOf "attribute" [.kwAccess, .kwDelta, .kwDigits, .kwMod, .kwRange]
  return .literal .designator token

def attributeDesignator : Program Expr :=
  orElse (expr .keywordAttribute) (expr .identifier)

def name : Program Expr := do
  let base ← expr .directName
  iterate base fun base => do
    let step ← firstOf (StepRule.ordered.map fun rule => call (.step rule))
    return step.map (NameStep.extend base)

/-! ### Steps -/

def callStep : Program NameStep := do
  let _ ← take .openParen
  let suffix ← call .callSuffix
  let closing ← take .closeParen
  return .call suffix closing.span

def selectionStep : Program NameStep := do
  let _ ← take .dot
  let selector ← expr .directName
  return .select selector

def attributeStep : Program NameStep := do
  let ((designator, arguments), whole) ← extent do
    let _ ← take .tick
    let designator ← expr .attributeDesignator
    let arguments ← attempt (parenthesized (call .callSuffix))
    return (designator, arguments)
  return .attributeRef designator arguments whole.last.span

def qualificationStep : Program NameStep := do
  let (operand, whole) ← extent do
    let _ ← take .tick
    orElse (parenthesized (expr .expression)) (expr .aggregate)
  return .qualify operand whole.last.span

/-! ### Static names -/

/-- An identifier or operator symbol, by what the current token is. -/
def staticPart : Program Ident := do
  let kind ← nextKind
  ident (if kind = .string then .operatorSymbol else .identifier)

def staticName : Program Expr := do
  let first ← staticPart
  let path ← iterate (Name.simple first) fun base => do
    if (← nextKind) = .dot then
      let some selector ← attempt (do let _ ← take .dot; staticPart) | return none
      return some (base.select selector)
    else
      return none
  return .name path

end AdaExpressions.Grammar
