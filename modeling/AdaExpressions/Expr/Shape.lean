import AdaExpressions.Expr.Basic

/-!
# The shape of a tree

The shape of an expression names every node, operator and leaf text and forgets spans and
parentheses: `1 + 2 * 3` has the shape `BinOp(Num(1), plus, BinOp(Num(2), mult, Num(3)))`. Shapes
are terms of their own, written out by one function.
-/

namespace AdaExpressions

/-- A text, a head applied to arguments, or a list behind a head, which may be empty. -/
inductive Shape
  | text (text : String)
  | node (head : String) (arguments : List Shape)
  | list (head : String) (items : List Shape)

namespace Shape

mutual

def render : Shape → String
  | .text content => content
  | .node head arguments => head ++ "(" ++ renderList arguments ++ ")"
  | .list head items => head ++ "[" ++ renderList items ++ "]"

/-- Renders shapes with commas between them. -/
def renderList : List Shape → String
  | [] => ""
  | [shape] => shape.render
  | shape :: next :: more => shape.render ++ ", " ++ renderList (next :: more)

end

def none : Shape :=
  .text "None"

end Shape

def Ident.shape (ident : Ident) : Shape :=
  let head := match ident.form with
    | .identifier => "Id"
    | .operatorSymbol => "Str"
    | .enumeration => "EnumId"
  .node head [.text ident.token.text]

def Name.shape : Name → Shape
  | .simple ident => ident.shape
  | .selected base selector _ => .node "NamePrefix" [base.shape, selector.shape]

def Op.shape (op : Op) : Shape :=
  .text op.name

def LiteralForm.shape (form : LiteralForm) (text : String) : Shape :=
  match form with
  | .character => .node "Chr" [.text text]
  | .number => .node "Num" [.text text]
  | .null => .text "Null"
  | .designator => .node "Attr" [.text text]

mutual

def Expr.shape : Expr → Shape
  | .unary op operand _ => .node "UnOp" [op.shape, operand.shape]
  | .binary left op right _ => .node "BinOp" [left.shape, op.shape, right.shape]
  | .membership tested op choices _ =>
      .node "MembershipExpr" [tested.shape, op.shape, .list "" (Choice.shapes choices)]
  | .aggregate ancestor content _ =>
      .node "Aggregate" [Expr.optionShape ancestor, content.shape]
  | .call callee suffix _ => .node "CallExpr" [callee.shape, suffix.shape]
  | .dereference _ => .text "AccessDeref"
  | .box _ => .text "DiamondExpr"
  | .ifExpr condition consequence elsifs alternative _ =>
      .node "IfExpr" [condition.shape, consequence.shape, .list "" (ElsifPart.shapes elsifs),
        Expr.optionShape alternative]
  | .caseExpr subject alternatives _ =>
      .node "CaseExpr" [subject.shape, .list "" (CaseAlternative.shapes alternatives)]
  | .quantified quantifier loop body _ =>
      .node "QuantifiedExpr" [.text quantifier.word.spelling, loop.shape, body.shape]
  | .allocator subpool designated _ =>
      .node "Allocator" [Expr.optionShape subpool, designated.shape]
  | .qualified mark operand _ => .node "QualExpr" [mark.shape, operand.shape]
  | .attributeRef base designator arguments _ =>
      .node "AttributeRef" [base.shape, designator.shape, CallSuffix.optionShape arguments]
  | .raise exception message _ =>
      .node "RaiseExpression" [Expr.optionShape exception, Expr.optionShape message]
  | .selection base selector _ => .node "Prefix" [base.shape, selector.shape]
  | .name path => path.shape
  | .literal form token => form.shape token.text

def Expr.optionShape : Option Expr → Shape
  | .none => .none
  | .some expr => expr.shape

def Choice.shape : Choice → Shape
  | .expr inner => inner.shape
  | .others _ => .text "OthersDesignator"

def Choice.shapes : List Choice → List Shape
  | [] => []
  | choice :: more => choice.shape :: Choice.shapes more

def AggregateContent.shape : AggregateContent → Shape
  | .fields associations _ =>
      .list "AggregateContent" (Association.shapes "AggregateAssoc" associations)
  | .nullRecord _ => .text "NullRecord"

def Association.shape (head : String) : Association → Shape
  | .mk designator value _ => .node head [Designator.optionShape designator, value.shape]

def Association.shapes (head : String) : List Association → List Shape
  | [] => []
  | association :: more => association.shape head :: Association.shapes head more

def Designator.shape : Designator → Shape
  | .name ident => ident.shape
  | .others _ => .text "OthersDesignator"
  | .choices list _ => .list "AggregateMember" (Choice.shapes list)

def Designator.optionShape : Option Designator → Shape
  | .none => .none
  | .some designator => designator.shape

def CallSuffix.shape : CallSuffix → Shape
  | .range bounds => bounds.shape
  | .parameters associations _ =>
      .list "ParamList" (Association.shapes "ParamAssoc" associations)

def CallSuffix.optionShape : Option CallSuffix → Shape
  | .none => .none
  | .some suffix => suffix.shape

def ElsifPart.shape : ElsifPart → Shape
  | .mk condition consequence _ =>
      .node "ElsifExprPart" [condition.shape, consequence.shape]

def ElsifPart.shapes : List ElsifPart → List Shape
  | [] => []
  | part :: more => part.shape :: ElsifPart.shapes more

def CaseAlternative.shape : CaseAlternative → Shape
  | .mk choices value _ =>
      .node "CaseExprAlternative" [.list "" (Choice.shapes choices), value.shape]

def CaseAlternative.shapes : List CaseAlternative → List Shape
  | [] => []
  | alternative :: more => alternative.shape :: CaseAlternative.shapes more

def LoopSpec.shape : LoopSpec → Shape
  | .mk parameter iteration reversed source _ =>
      .node "ForLoopSpec" [parameter.shape, .text (iteration.phrase reversed), source.shape]

def IterationSource.shape : IterationSource → Shape
  | .constrained mark constraint _ =>
      .node "ConstrainedSubtype" [mark.shape, constraint.shape]
  | .expr inner => inner.shape

end

/-- The shape written out. -/
def Expr.shapeText (expr : Expr) : String :=
  expr.shape.render

end AdaExpressions
