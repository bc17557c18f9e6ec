import AdaExpressions.Expr.Basic

/-!
# The outline of a tree

An outline shows every node of a tree, supporting nodes included, with a label, a detail such as the
operator or the text of a leaf, its span, and its children in source order. Written as rows it lists
the nodes in preorder with their depth.
-/

namespace AdaExpressions

inductive Outline
  | node (label detail : String) (span : Span) (children : List Outline)

namespace Outline

structure Row where
  depth : Nat
  label : String
  detail : String
  span : Span
  deriving DecidableEq, Repr

mutual

def rows (depth : Nat) : Outline → List Row
  | .node label detail span children => ⟨depth, label, detail, span⟩ :: listRows (depth + 1) children

def listRows (depth : Nat) : List Outline → List Row
  | [] => []
  | outline :: more => outline.rows depth ++ listRows depth more

end

def leaf (label detail : String) (span : Span) : Outline :=
  .node label detail span []

end Outline

def Ident.outline (ident : Ident) : Outline :=
  .leaf (Expr.name (.simple ident)).typeName ident.token.text ident.token.span

def Name.outline : Name → Outline
  | .simple ident => ident.outline
  | .selected base selector span =>
      .node "NamePrefix" selector.token.text span [base.outline, selector.outline]

mutual

def Expr.outline : Expr → Outline
  | .unary op operand span => .node "UnOp" op.name span [operand.outline]
  | .binary left op right span => .node "BinOp" op.name span [left.outline, right.outline]
  | .membership tested op choices span =>
      .node "MembershipExpr" op.name span (tested.outline :: Choice.outlines choices)
  | .aggregate ancestor content span =>
      .node "Aggregate" "" span (Expr.optionOutlines ancestor ++ [content.outline])
  | .call callee suffix span => .node "CallExpr" "" span [callee.outline, suffix.outline]
  | .dereference span => .leaf "AccessDeref" "" span
  | .box span => .leaf "DiamondExpr" "" span
  | .ifExpr condition consequence elsifs alternative span =>
      .node "IfExpr" "" span <|
        condition.outline :: consequence.outline :: ElsifPart.outlines elsifs ++
          Expr.optionOutlines alternative
  | .caseExpr subject alternatives span =>
      .node "CaseExpr" "" span (subject.outline :: CaseAlternative.outlines alternatives)
  | .quantified quantifier loop body span =>
      .node "QuantifiedExpr" quantifier.word.spelling span [loop.outline, body.outline]
  | .allocator subpool designated span =>
      .node "Allocator" "" span (Expr.optionOutlines subpool ++ [designated.outline])
  | .qualified mark operand span => .node "QualExpr" "" span [mark.outline, operand.outline]
  | .attributeRef base designator arguments span =>
      .node "AttributeRef" "" span <|
        base.outline :: designator.outline :: CallSuffix.optionOutlines arguments
  | .raise exception message span =>
      .node "RaiseExpression" "" span <|
        Expr.optionOutlines exception ++ Expr.optionOutlines message
  | .selection base selector span => .node "Prefix" "" span [base.outline, selector.outline]
  | .name path => path.outline
  | .literal form token => .leaf (Expr.literal form token).typeName token.text token.span

def Expr.optionOutlines : Option Expr → List Outline
  | none => []
  | some expr => [expr.outline]

def Choice.outline : Choice → Outline
  | .expr inner => inner.outline
  | .others span => .leaf "OthersDesignator" "" span

def Choice.outlines : List Choice → List Outline
  | [] => []
  | choice :: more => choice.outline :: Choice.outlines more

def AggregateContent.outline : AggregateContent → Outline
  | .fields associations span =>
      .node "AggregateContent" "" span (Association.outlines "AggregateAssoc" associations)
  | .nullRecord span => .leaf "NullRecord" "" span

def Association.outline (label : String) : Association → Outline
  | .mk designator value span =>
      .node label "" span (Designator.optionOutlines designator ++ [value.outline])

def Association.outlines (label : String) : List Association → List Outline
  | [] => []
  | association :: more => association.outline label :: Association.outlines label more

def Designator.outline : Designator → Outline
  | .name ident => .node "Designator" "name" ident.token.span [ident.outline]
  | .others span => .leaf "Designator" "others" span
  | .choices list span => .node "Designator" "choices" span (Choice.outlines list)

def Designator.optionOutlines : Option Designator → List Outline
  | none => []
  | some designator => [designator.outline]

def CallSuffix.outline : CallSuffix → Outline
  | .range bounds => .node "CallSuffix" "range" bounds.span [bounds.outline]
  | .parameters associations span =>
      .node "CallSuffix" "params" span (Association.outlines "ParamAssoc" associations)

def CallSuffix.optionOutlines : Option CallSuffix → List Outline
  | none => []
  | some suffix => [suffix.outline]

def ElsifPart.outline : ElsifPart → Outline
  | .mk condition consequence span =>
      .node "ElsifExprPart" "" span [condition.outline, consequence.outline]

def ElsifPart.outlines : List ElsifPart → List Outline
  | [] => []
  | part :: more => part.outline :: ElsifPart.outlines more

def CaseAlternative.outline : CaseAlternative → Outline
  | .mk choices value span =>
      .node "CaseExprAlternative" "" span (Choice.outlines choices ++ [value.outline])

def CaseAlternative.outlines : List CaseAlternative → List Outline
  | [] => []
  | alternative :: more => alternative.outline :: CaseAlternative.outlines more

def LoopSpec.outline : LoopSpec → Outline
  | .mk parameter iteration reversed source span =>
      .node "ForLoopSpec" (iteration.phrase reversed) span [parameter.outline, source.outline]

def IterationSource.outline : IterationSource → Outline
  | .constrained mark constraint span =>
      .node "ConstrainedSubtype" "" span [mark.outline, constraint.outline]
  | .expr inner => inner.outline

end

end AdaExpressions
