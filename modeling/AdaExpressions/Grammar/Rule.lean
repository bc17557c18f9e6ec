import AdaExpressions.Expr.Basic

/-!
# The rules of the grammar

Every rule has a name here; its body is a program of its own. A rule yields a node: an expression, a
supporting node, or one step that extends a name.
-/

namespace AdaExpressions

/-- An ordered choice among rules that yield expressions. -/
inductive ChoiceTable
  | primary
  | conditional
  | directName
  deriving DecidableEq, Inhabited, Repr

/-- The rules that yield an expression. -/
inductive ExprRule
  | expression
  | logicalChain
  | relation
  | simpleExpr
  | addingChain
  | unopTerm
  | term
  | factor
  | primary
  /-- The first rule of a table that matches; `label` is what a failure calls the choice. -/
  | oneOf (table : ChoiceTable) (label : String)
  | parenthesized
  | numberLiteral
  | nullLiteral
  | characterLiteral
  | stringLiteral
  | identifier
  | enumerationLiteral
  | name
  | directName
  | dereference
  | keywordAttribute
  | attributeDesignator
  | staticName
  | aggregate
  | discreteRange
  | conditional
  | ifExpr
  | caseExpr
  | quantified
  | allocator
  | raiseExpr
  deriving DecidableEq, Inhabited, Repr

/-- The steps that extend a name. -/
inductive StepRule
  | call
  | selection
  | attributeRef
  | qualification
  deriving DecidableEq, Inhabited, Repr

inductive Rule
  | expr (rule : ExprRule)
  | step (rule : StepRule)
  | choice
  | choiceList
  | aggregateAssociation
  | parameterAssociation
  | callSuffix
  | loopSpec
  deriving DecidableEq, Inhabited, Repr

/-- One step that extends a name, read without the name. -/
inductive NameStep
  /-- A parenthesized suffix, with the span of the closing parenthesis. -/
  | call (suffix : CallSuffix) (closing : Span)
  | select (selector : Expr)
  /-- An attribute, with the span of its last token. -/
  | attributeRef (designator : Expr) (arguments : Option CallSuffix) (last : Span)
  /-- What a qualification applies to, with the span of its last token. -/
  | qualify (operand : Expr) (last : Span)

namespace NameStep

def extend (base : Expr) : NameStep → Expr
  | .call suffix closing => .call base suffix (base.span.join closing)
  | .select selector => base.select selector
  | .attributeRef designator arguments last =>
      .attributeRef base designator arguments (base.span.join last)
  | .qualify operand last => .qualified base operand (base.span.join last)

end NameStep

/-- What a rule yields. -/
abbrev Rule.Node : Rule → Type
  | .expr _ => Expr
  | .step _ => NameStep
  | .choice => Choice
  | .choiceList => List Choice
  | .aggregateAssociation => Association
  | .parameterAssociation => Association
  | .callSuffix => CallSuffix
  | .loopSpec => LoopSpec

/-- The rules whose results are remembered by position. -/
inductive MemoKey
  | expression
  | simpleExpr
  | primary
  deriving DecidableEq, Inhabited, Repr

/-- The alternatives of a choice in the order in which they are tried, each with its label. -/
def ChoiceTable.alternatives : ChoiceTable → List (String × ExprRule)
  | .primary =>
      [("num_literal", .numberLiteral),
       ("null_literal", .nullLiteral),
       ("name", .name),
       ("allocator", .allocator),
       ("conditional_expression", .conditional),
       ("raise_expression", .raiseExpr),
       ("parenthesized expression", .parenthesized),
       ("aggregate", .aggregate)]
  | .conditional =>
      [("if_expression", .ifExpr),
       ("case_expression", .caseExpr),
       ("quantified_expression", .quantified)]
  | .directName =>
      [("identifier", .identifier),
       ("string_literal", .stringLiteral),
       ("char_literal", .characterLiteral),
       ("access_deref", .dereference),
       ("attribute", .keywordAttribute)]

/-- The steps that extend a name, in the order in which they are tried. -/
def StepRule.ordered : List StepRule :=
  [.call, .selection, .attributeRef, .qualification]

end AdaExpressions
