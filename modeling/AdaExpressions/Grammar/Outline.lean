import AdaExpressions.Expr.Outline
import AdaExpressions.Grammar.Rule

/-!
# The outline of a node

The outlines of what a rule yields: of one tree, or of each choice of a list.
-/

namespace AdaExpressions

def NameStep.outline : NameStep → Outline
  | .call suffix closing => .node "NameSuffix" "call" closing [suffix.outline]
  | .select selector => .node "NameSuffix" "select" selector.span [selector.outline]
  | .attributeRef designator arguments last =>
      .node "NameSuffix" "attribute" last
        (designator.outline :: CallSuffix.optionOutlines arguments)
  | .qualify operand last => .node "NameSuffix" "qualify" last [operand.outline]

def Rule.outlines : (rule : Rule) → rule.Node → List Outline
  | .expr _, tree => [tree.outline]
  | .step _, suffix => [suffix.outline]
  | .choice, node => [node.outline]
  | .choiceList, choices => Choice.outlines choices
  | .aggregateAssociation, association => [association.outline "AggregateAssoc"]
  | .parameterAssociation, association => [association.outline "ParamAssoc"]
  | .callSuffix, suffix => [suffix.outline]
  | .loopSpec, loop => [loop.outline]

end AdaExpressions
