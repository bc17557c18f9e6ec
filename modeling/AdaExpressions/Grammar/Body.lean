import AdaExpressions.Grammar.Association
import AdaExpressions.Grammar.Ladder
import AdaExpressions.Grammar.Name
import AdaExpressions.Grammar.Primary

/-!
# The body of every rule

Expressions, simple expressions and primaries are read again at a position where a sibling failed;
their results are remembered.
-/

namespace AdaExpressions

open Program

/-- Runs the first rule of a choice that matches; if none does, the failure lists the labels. -/
def ChoiceTable.program (table : ChoiceTable) (label : String) : Program Expr := do
  let some value ← firstOf (table.alternatives.map fun alternative => expr alternative.2)
    | fail (.noAlternative label (table.alternatives.map Prod.fst))
  return value

def ExprRule.body : ExprRule → Program Expr
  | .expression => remember .expression .logicalChain
  | .logicalChain => Grammar.logicalChain
  | .relation => Grammar.relation
  | .simpleExpr => remember .simpleExpr .addingChain
  | .addingChain => Grammar.addingChain
  | .unopTerm => Grammar.unopTerm
  | .term => Grammar.term
  | .factor => Grammar.factor
  | .primary => remember .primary (.oneOf .primary "primary")
  | .oneOf table label => table.program label
  | .parenthesized => Grammar.parenthesizedExpr
  | .numberLiteral => Grammar.literal .number .number
  | .nullLiteral => Grammar.literal .null .kwNull
  | .characterLiteral => Grammar.literal .character .char
  | .stringLiteral => Grammar.simpleName .operatorSymbol
  | .identifier => Grammar.simpleName .identifier
  | .enumerationLiteral => Grammar.simpleName .enumeration
  | .name => Grammar.name
  | .directName => expr (.oneOf .directName "direct_name")
  | .dereference => Grammar.dereference
  | .keywordAttribute => Grammar.keywordAttribute
  | .attributeDesignator => Grammar.attributeDesignator
  | .staticName => Grammar.staticName
  | .aggregate => Grammar.aggregate
  | .discreteRange => Grammar.discreteRange
  | .conditional => expr (.oneOf .conditional "conditional_expression")
  | .ifExpr => Grammar.ifExpr
  | .caseExpr => Grammar.caseExpr
  | .quantified => Grammar.quantified
  | .allocator => Grammar.allocator
  | .raiseExpr => Grammar.raiseExpr

def StepRule.body : StepRule → Program NameStep
  | .call => Grammar.callStep
  | .selection => Grammar.selectionStep
  | .attributeRef => Grammar.attributeStep
  | .qualification => Grammar.qualificationStep

def Rule.body : (rule : Rule) → Program rule.Node
  | .expr rule => rule.body
  | .step rule => rule.body
  | .choice => Grammar.choice
  | .choiceList => Grammar.choiceList
  | .aggregateAssociation => Grammar.aggregateAssociation
  | .parameterAssociation => Grammar.parameterAssociation
  | .callSuffix => Grammar.callSuffix
  | .loopSpec => Grammar.loopSpec

end AdaExpressions
