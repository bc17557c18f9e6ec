import AdaExpressions.Expr.Shape
import AdaExpressions.Proofs.Relabelling.Tree

/-!
# Shapes of relabelled trees

The shape of a tree shows the texts of its tokens among words of its own. A map of texts that does
not tell a token's own text from its other one does not tell the shape of a tree from that of the
relabelled tree, and neither the two written out.

Results: `Expr.shape_relabel`, `Expr.shapeText_relabel`.
-/

namespace AdaExpressions

namespace Shape

/-- What shapes are written with besides heads and texts. -/
def punctuation : List String :=
  ["", "(", ")", "[", "]", ", "]

/-- A map of texts that goes through a shape written out, part by part. -/
structure TextMap where
  map : String → String
  map_append : ∀ first second, map (first ++ second) = map first ++ map second
  map_punctuation : ∀ mark ∈ punctuation, map mark = mark

mutual

def map (f : String → String) : Shape → Shape
  | .text content => .text (f content)
  | .node head arguments => .node (f head) (mapList f arguments)
  | .list head items => .list (f head) (mapList f items)

def mapList (f : String → String) : List Shape → List Shape
  | [] => []
  | shape :: more => shape.map f :: mapList f more

end

mutual

theorem render_map (texts : TextMap) : ∀ shape : Shape,
    (shape.map texts.map).render = texts.map shape.render
  | .text content => rfl
  | .node head arguments => by
      have opening := texts.map_punctuation "(" (by decide)
      have closing := texts.map_punctuation ")" (by decide)
      rw [map, render, render, texts.map_append, texts.map_append, texts.map_append, opening,
        closing, renderList_map texts arguments]
  | .list head items => by
      have opening := texts.map_punctuation "[" (by decide)
      have closing := texts.map_punctuation "]" (by decide)
      rw [map, render, render, texts.map_append, texts.map_append, texts.map_append, opening,
        closing, renderList_map texts items]

theorem renderList_map (texts : TextMap) : ∀ shapes : List Shape,
    renderList (mapList texts.map shapes) = texts.map (renderList shapes)
  | [] => (texts.map_punctuation "" (by decide)).symm
  | [shape] => render_map texts shape
  | shape :: next :: more => by
      have comma := texts.map_punctuation ", " (by decide)
      rw [renderList, texts.map_append, texts.map_append, comma, ← render_map texts shape,
        ← renderList_map texts (next :: more)]
      rfl

end

end Shape

section

variable {labels : Relabelling} {f : String → String}

theorem Name.shape_relabel (same : ∀ text, f (labels.text text) = f text) (name : Name) :
    (name.relabel labels).shape.map f = name.shape.map f := by
  have ident (ident : Ident) : (ident.relabel labels).shape.map f = ident.shape.map f := by
    have text := same ident.token.text
    simp only [Ident.relabel, Relabelling.token, Ident.shape, Shape.map, Shape.mapList, text]
  induction name with
  | simple simple => exact ident simple
  | selected base selector span ih =>
      simp only [relabel, shape, Shape.map, Shape.mapList, ih, ident]

mutual

theorem Expr.shape_relabel (same : ∀ text, f (labels.text text) = f text) : ∀ expr : Expr,
    (expr.relabel labels).shape.map f = expr.shape.map f
  | .unary op operand _ => by
      simp only [Expr.relabel, Expr.shape, Shape.map, Shape.mapList,
        Expr.shape_relabel same operand]
  | .binary left op right _ => by
      simp only [Expr.relabel, Expr.shape, Shape.map, Shape.mapList, Expr.shape_relabel same left,
        Expr.shape_relabel same right]
  | .membership tested op choices _ => by
      simp only [Expr.relabel, Expr.shape, Shape.map, Shape.mapList,
        Expr.shape_relabel same tested, Choice.shapes_relabel same choices]
  | .aggregate ancestor content _ => by
      simp only [Expr.relabel, Expr.shape, Shape.map, Shape.mapList,
        Expr.optionShape_relabel same ancestor, AggregateContent.shape_relabel same content]
  | .call callee suffix _ => by
      simp only [Expr.relabel, Expr.shape, Shape.map, Shape.mapList,
        Expr.shape_relabel same callee, CallSuffix.shape_relabel same suffix]
  | .dereference _ => rfl
  | .box _ => rfl
  | .ifExpr condition consequence elsifs alternative _ => by
      simp only [Expr.relabel, Expr.shape, Shape.map, Shape.mapList,
        Expr.shape_relabel same condition, Expr.shape_relabel same consequence,
        ElsifPart.shapes_relabel same elsifs, Expr.optionShape_relabel same alternative]
  | .caseExpr subject alternatives _ => by
      simp only [Expr.relabel, Expr.shape, Shape.map, Shape.mapList,
        Expr.shape_relabel same subject, CaseAlternative.shapes_relabel same alternatives]
  | .quantified quantifier loop body _ => by
      simp only [Expr.relabel, Expr.shape, Shape.map, Shape.mapList,
        LoopSpec.shape_relabel same loop, Expr.shape_relabel same body]
  | .allocator subpool designated _ => by
      simp only [Expr.relabel, Expr.shape, Shape.map, Shape.mapList,
        Expr.optionShape_relabel same subpool, Expr.shape_relabel same designated]
  | .qualified mark operand _ => by
      simp only [Expr.relabel, Expr.shape, Shape.map, Shape.mapList, Expr.shape_relabel same mark,
        Expr.shape_relabel same operand]
  | .attributeRef base designator arguments _ => by
      simp only [Expr.relabel, Expr.shape, Shape.map, Shape.mapList, Expr.shape_relabel same base,
        Expr.shape_relabel same designator, CallSuffix.optionShape_relabel same arguments]
  | .raise exception message _ => by
      simp only [Expr.relabel, Expr.shape, Shape.map, Shape.mapList,
        Expr.optionShape_relabel same exception, Expr.optionShape_relabel same message]
  | .selection base selector _ => by
      simp only [Expr.relabel, Expr.shape, Shape.map, Shape.mapList, Expr.shape_relabel same base,
        Expr.shape_relabel same selector]
  | .name path => Name.shape_relabel same path
  | .literal form token => by
      have text := same token.text
      cases form <;>
        simp only [Expr.relabel, Relabelling.token, Expr.shape, LiteralForm.shape, Shape.map,
          Shape.mapList, text]

theorem Expr.optionShape_relabel (same : ∀ text, f (labels.text text) = f text) :
    ∀ value : Option Expr,
      (Expr.optionShape (Expr.optionRelabel labels value)).map f = (Expr.optionShape value).map f
  | none => rfl
  | some expr => Expr.shape_relabel same expr

theorem Choice.shapes_relabel (same : ∀ text, f (labels.text text) = f text) :
    ∀ choices : List Choice,
      Shape.mapList f (Choice.shapes (Choice.relabelList labels choices)) =
        Shape.mapList f (Choice.shapes choices)
  | [] => rfl
  | .expr inner :: more => by
      simp only [Choice.relabelList, Choice.relabel, Choice.shapes, Choice.shape, Shape.mapList,
        Expr.shape_relabel same inner, Choice.shapes_relabel same more]
  | .others _ :: more => by
      simp only [Choice.relabelList, Choice.relabel, Choice.shapes, Choice.shape, Shape.mapList,
        Choice.shapes_relabel same more]

theorem AggregateContent.shape_relabel (same : ∀ text, f (labels.text text) = f text) :
    ∀ content : AggregateContent,
      (content.relabel labels).shape.map f = content.shape.map f
  | .fields associations _ => by
      simp only [AggregateContent.relabel, AggregateContent.shape, Shape.map,
        Association.shapes_relabel same _ associations]
  | .nullRecord _ => rfl

theorem Association.shapes_relabel (same : ∀ text, f (labels.text text) = f text) (head : String) :
    ∀ associations : List Association,
      Shape.mapList f (Association.shapes head (Association.relabelList labels associations)) =
        Shape.mapList f (Association.shapes head associations)
  | [] => rfl
  | .mk designator value _ :: more => by
      simp only [Association.relabelList, Association.relabel, Association.shapes,
        Association.shape, Shape.map, Shape.mapList, Designator.optionShape_relabel same designator,
        Expr.shape_relabel same value, Association.shapes_relabel same head more]

theorem Designator.optionShape_relabel (same : ∀ text, f (labels.text text) = f text) :
    ∀ value : Option Designator,
      (Designator.optionShape (Designator.optionRelabel labels value)).map f =
        (Designator.optionShape value).map f
  | none => rfl
  | some (.name ident) => Name.shape_relabel same (.simple ident)
  | some (.others _) => rfl
  | some (.choices list _) => by
      simp only [Designator.optionRelabel, Designator.relabel, Designator.optionShape,
        Designator.shape, Shape.map, Choice.shapes_relabel same list]

theorem CallSuffix.shape_relabel (same : ∀ text, f (labels.text text) = f text) :
    ∀ suffix : CallSuffix, (suffix.relabel labels).shape.map f = suffix.shape.map f
  | .range bounds => Expr.shape_relabel same bounds
  | .parameters associations _ => by
      simp only [CallSuffix.relabel, CallSuffix.shape, Shape.map,
        Association.shapes_relabel same _ associations]

theorem CallSuffix.optionShape_relabel (same : ∀ text, f (labels.text text) = f text) :
    ∀ value : Option CallSuffix,
      (CallSuffix.optionShape (CallSuffix.optionRelabel labels value)).map f =
        (CallSuffix.optionShape value).map f
  | none => rfl
  | some suffix => CallSuffix.shape_relabel same suffix

theorem ElsifPart.shapes_relabel (same : ∀ text, f (labels.text text) = f text) :
    ∀ parts : List ElsifPart,
      Shape.mapList f (ElsifPart.shapes (ElsifPart.relabelList labels parts)) =
        Shape.mapList f (ElsifPart.shapes parts)
  | [] => rfl
  | .mk condition consequence _ :: more => by
      simp only [ElsifPart.relabelList, ElsifPart.relabel, ElsifPart.shapes, ElsifPart.shape,
        Shape.map, Shape.mapList, Expr.shape_relabel same condition,
        Expr.shape_relabel same consequence, ElsifPart.shapes_relabel same more]

theorem CaseAlternative.shapes_relabel (same : ∀ text, f (labels.text text) = f text) :
    ∀ alternatives : List CaseAlternative,
      Shape.mapList f (CaseAlternative.shapes (CaseAlternative.relabelList labels alternatives)) =
        Shape.mapList f (CaseAlternative.shapes alternatives)
  | [] => rfl
  | .mk choices value _ :: more => by
      simp only [CaseAlternative.relabelList, CaseAlternative.relabel, CaseAlternative.shapes,
        CaseAlternative.shape, Shape.map, Shape.mapList, Choice.shapes_relabel same choices,
        Expr.shape_relabel same value, CaseAlternative.shapes_relabel same more]

theorem LoopSpec.shape_relabel (same : ∀ text, f (labels.text text) = f text) :
    ∀ loop : LoopSpec, (loop.relabel labels).shape.map f = loop.shape.map f
  | .mk parameter iteration reversed source _ => by
      have simple : (parameter.relabel labels).shape.map f = parameter.shape.map f :=
        Name.shape_relabel same (.simple parameter)
      simp only [LoopSpec.relabel, LoopSpec.shape, Shape.map, Shape.mapList, simple,
        IterationSource.shape_relabel same source]

theorem IterationSource.shape_relabel (same : ∀ text, f (labels.text text) = f text) :
    ∀ source : IterationSource, (source.relabel labels).shape.map f = source.shape.map f
  | .constrained mark constraint _ => by
      simp only [IterationSource.relabel, IterationSource.shape, Shape.map, Shape.mapList,
        Expr.shape_relabel same mark, Expr.shape_relabel same constraint]
  | .expr inner => Expr.shape_relabel same inner

end

/-- Written out, the shape of a relabelled tree is that of the tree up to the texts of tokens. -/
theorem Expr.shapeText_relabel (texts : Shape.TextMap)
    (same : ∀ text, texts.map (labels.text text) = texts.map text) (expr : Expr) :
    texts.map (expr.relabel labels).shapeText = texts.map expr.shapeText := by
  rw [shapeText, ← Shape.render_map, shape_relabel same, Shape.render_map, shapeText]

end

end AdaExpressions
