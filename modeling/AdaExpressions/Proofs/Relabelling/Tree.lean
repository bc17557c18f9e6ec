import AdaExpressions.Grammar.Ladder
import AdaExpressions.Grammar.Association

/-!
# Relabelled trees

A relabelling gives tokens other texts and other places and keeps their kinds. A tree is relabelled
leaf by leaf and span by span; how it is put together stays. What the rules build out of parts, they
build out of relabelled parts in the same way.

Results: `Expr.span_relabel`, `Expr.relabel_select`, `NameStep.relabel_extend` and their like for
the other ways to put a node together.
-/

namespace AdaExpressions

/-- Other texts and other places for tokens. -/
structure Relabelling where
  text : String → String
  position : Position → Position
  position_default : position default = default

namespace Relabelling

/-- Leaves every token its text and takes its place. -/
def placeless : Relabelling :=
  ⟨id, fun _ => default, rfl⟩

variable (labels : Relabelling)

def span (span : Span) : Span :=
  ⟨labels.position span.start, labels.position span.stop⟩

def token (token : Token) : Token :=
  ⟨token.kind, labels.text token.text, labels.span token.span⟩

def extent (extent : Extent) : Extent :=
  ⟨labels.token extent.first, labels.token extent.last⟩

theorem span_join (first second : Span) :
    labels.span (first.join second) = (labels.span first).join (labels.span second) :=
  rfl

theorem span_default : labels.span default = default := by
  show (⟨labels.position default, labels.position default⟩ : Span) = default
  rw [labels.position_default]
  rfl

end Relabelling

variable (labels : Relabelling)

def Ident.relabel (ident : Ident) : Ident :=
  ⟨ident.form, labels.token ident.token⟩

def Name.relabel : Name → Name
  | .simple ident => .simple (ident.relabel labels)
  | .selected base selector span =>
      .selected base.relabel (selector.relabel labels) (labels.span span)

mutual

def Expr.relabel : Expr → Expr
  | .unary op operand span => .unary op operand.relabel (labels.span span)
  | .binary left op right span => .binary left.relabel op right.relabel (labels.span span)
  | .membership tested op choices span =>
      .membership tested.relabel op (Choice.relabelList choices) (labels.span span)
  | .aggregate ancestor content span =>
      .aggregate (Expr.optionRelabel ancestor) content.relabel (labels.span span)
  | .call callee suffix span => .call callee.relabel suffix.relabel (labels.span span)
  | .dereference span => .dereference (labels.span span)
  | .box span => .box (labels.span span)
  | .ifExpr condition consequence elsifs alternative span =>
      .ifExpr condition.relabel consequence.relabel (ElsifPart.relabelList elsifs)
        (Expr.optionRelabel alternative) (labels.span span)
  | .caseExpr subject alternatives span =>
      .caseExpr subject.relabel (CaseAlternative.relabelList alternatives) (labels.span span)
  | .quantified quantifier loop body span =>
      .quantified quantifier loop.relabel body.relabel (labels.span span)
  | .allocator subpool designated span =>
      .allocator (Expr.optionRelabel subpool) designated.relabel (labels.span span)
  | .qualified mark operand span => .qualified mark.relabel operand.relabel (labels.span span)
  | .attributeRef base designator arguments span =>
      .attributeRef base.relabel designator.relabel (CallSuffix.optionRelabel arguments)
        (labels.span span)
  | .raise exception message span =>
      .raise (Expr.optionRelabel exception) (Expr.optionRelabel message) (labels.span span)
  | .selection base selector span =>
      .selection base.relabel selector.relabel (labels.span span)
  | .name path => .name (path.relabel labels)
  | .literal form token => .literal form (labels.token token)

def Expr.optionRelabel : Option Expr → Option Expr
  | none => none
  | some expr => some expr.relabel

def Choice.relabel : Choice → Choice
  | .expr inner => .expr inner.relabel
  | .others span => .others (labels.span span)

def Choice.relabelList : List Choice → List Choice
  | [] => []
  | choice :: more => choice.relabel :: Choice.relabelList more

def AggregateContent.relabel : AggregateContent → AggregateContent
  | .fields associations span => .fields (Association.relabelList associations) (labels.span span)
  | .nullRecord span => .nullRecord (labels.span span)

def Association.relabel : Association → Association
  | .mk designator value span =>
      .mk (Designator.optionRelabel designator) value.relabel (labels.span span)

def Association.relabelList : List Association → List Association
  | [] => []
  | association :: more => association.relabel :: Association.relabelList more

def Designator.relabel : Designator → Designator
  | .name ident => .name (ident.relabel labels)
  | .others span => .others (labels.span span)
  | .choices list span => .choices (Choice.relabelList list) (labels.span span)

def Designator.optionRelabel : Option Designator → Option Designator
  | none => none
  | some designator => some designator.relabel

def CallSuffix.relabel : CallSuffix → CallSuffix
  | .range bounds => .range bounds.relabel
  | .parameters associations span =>
      .parameters (Association.relabelList associations) (labels.span span)

def CallSuffix.optionRelabel : Option CallSuffix → Option CallSuffix
  | none => none
  | some suffix => some suffix.relabel

def ElsifPart.relabel : ElsifPart → ElsifPart
  | .mk condition consequence span =>
      .mk condition.relabel consequence.relabel (labels.span span)

def ElsifPart.relabelList : List ElsifPart → List ElsifPart
  | [] => []
  | part :: more => part.relabel :: ElsifPart.relabelList more

def CaseAlternative.relabel : CaseAlternative → CaseAlternative
  | .mk choices value span => .mk (Choice.relabelList choices) value.relabel (labels.span span)

def CaseAlternative.relabelList : List CaseAlternative → List CaseAlternative
  | [] => []
  | alternative :: more => alternative.relabel :: CaseAlternative.relabelList more

def LoopSpec.relabel : LoopSpec → LoopSpec
  | .mk parameter iteration reversed source span =>
      .mk (parameter.relabel labels) iteration reversed source.relabel (labels.span span)

def IterationSource.relabel : IterationSource → IterationSource
  | .constrained mark constraint span =>
      .constrained mark.relabel constraint.relabel (labels.span span)
  | .expr inner => .expr inner.relabel

end

def NameStep.relabel : NameStep → NameStep
  | .call suffix closing => .call (suffix.relabel labels) (labels.span closing)
  | .select selector => .select (selector.relabel labels)
  | .attributeRef designator arguments last =>
      .attributeRef (designator.relabel labels) (arguments.map (CallSuffix.relabel labels))
        (labels.span last)
  | .qualify operand last => .qualify (operand.relabel labels) (labels.span last)

/-- What a rule yields, relabelled. -/
def Rule.relabel : (rule : Rule) → rule.Node → rule.Node
  | .expr _, tree => tree.relabel labels
  | .step _, suffix => suffix.relabel labels
  | .choice, node => node.relabel labels
  | .choiceList, choices => choices.map (Choice.relabel labels)
  | .aggregateAssociation, association => association.relabel labels
  | .parameterAssociation, association => association.relabel labels
  | .callSuffix, suffix => suffix.relabel labels
  | .loopSpec, loop => loop.relabel labels

/-! ### Lists and optional parts -/

variable {labels}

@[simp] theorem Expr.optionRelabel_eq (value : Option Expr) :
    Expr.optionRelabel labels value = value.map (Expr.relabel labels) := by
  cases value <;> rfl

@[simp] theorem Designator.optionRelabel_eq (value : Option Designator) :
    Designator.optionRelabel labels value = value.map (Designator.relabel labels) := by
  cases value <;> rfl

@[simp] theorem CallSuffix.optionRelabel_eq (value : Option CallSuffix) :
    CallSuffix.optionRelabel labels value = value.map (CallSuffix.relabel labels) := by
  cases value <;> rfl

@[simp] theorem Choice.relabelList_eq (choices : List Choice) :
    Choice.relabelList labels choices = choices.map (Choice.relabel labels) := by
  induction choices with
  | nil => rfl
  | cons choice more ih => rw [relabelList, ih, List.map_cons]

@[simp] theorem Association.relabelList_eq (parts : List Association) :
    Association.relabelList labels parts = parts.map (Association.relabel labels) := by
  induction parts with
  | nil => rfl
  | cons part more ih => rw [relabelList, ih, List.map_cons]

@[simp] theorem ElsifPart.relabelList_eq (parts : List ElsifPart) :
    ElsifPart.relabelList labels parts = parts.map (ElsifPart.relabel labels) := by
  induction parts with
  | nil => rfl
  | cons part more ih => rw [relabelList, ih, List.map_cons]

@[simp] theorem CaseAlternative.relabelList_eq (parts : List CaseAlternative) :
    CaseAlternative.relabelList labels parts = parts.map (CaseAlternative.relabel labels) := by
  induction parts with
  | nil => rfl
  | cons part more ih => rw [relabelList, ih, List.map_cons]

/-! ### Spans -/

@[simp] theorem Name.span_relabel (name : Name) :
    (name.relabel labels).span = labels.span name.span := by
  cases name <;> rfl

@[simp] theorem Expr.span_relabel (expr : Expr) :
    (expr.relabel labels).span = labels.span expr.span := by
  cases expr with
  | name path => exact path.span_relabel
  | _ => rfl

@[simp] theorem Choice.span_relabel (choice : Choice) :
    (choice.relabel labels).span = labels.span choice.span := by
  cases choice with
  | expr inner => exact inner.span_relabel
  | others => rfl

@[simp] theorem Designator.span_relabel (designator : Designator) :
    (designator.relabel labels).span = labels.span designator.span := by
  cases designator <;> rfl

@[simp] theorem Association.span_relabel (part : Association) :
    (part.relabel labels).span = labels.span part.span := by
  cases part
  rfl

@[simp] theorem IterationSource.span_relabel (source : IterationSource) :
    (source.relabel labels).span = labels.span source.span := by
  cases source with
  | constrained => rfl
  | expr inner => exact inner.span_relabel

/-! ### Nodes whose span comes from their parts -/

theorem Expr.relabel_ofUnary (op : Op) (span : Span) (operand : Expr) :
    (Expr.ofUnary op span operand).relabel labels =
      .ofUnary op (labels.span span) (operand.relabel labels) := by
  rw [ofUnary, relabel, labels.span_join, ofUnary, span_relabel]

theorem Expr.relabel_ofBinary (left : Expr) (op : Op) (right : Expr) :
    (Expr.ofBinary left op right).relabel labels =
      .ofBinary (left.relabel labels) op (right.relabel labels) := by
  rw [ofBinary, relabel, labels.span_join, ofBinary, span_relabel, span_relabel]

theorem Name.relabel_select (base : Name) (selector : Ident) :
    (base.select selector).relabel labels =
      (base.relabel labels).select (selector.relabel labels) := by
  rw [select, relabel, labels.span_join, select, span_relabel]
  rfl

theorem Expr.relabel_select (base selector : Expr) :
    (base.select selector).relabel labels =
      (base.relabel labels).select (selector.relabel labels) := by
  have other : (Expr.selection base selector (base.span.join selector.span)).relabel labels =
      .selection (base.relabel labels) (selector.relabel labels)
        ((base.relabel labels).span.join (selector.relabel labels).span) := by
    rw [relabel, labels.span_join, span_relabel, span_relabel]
  cases base with
  | name path =>
      cases selector with
      | name selector =>
          cases selector with
          | simple ident =>
              simp only [select, relabel, Name.relabel, Ident.relabel]
              split
              next => exact other
              next =>
                exact congrArg Expr.name (Name.relabel_select path ident)
          | selected => exact other
      | _ => exact other
  | _ => exact other

theorem NameStep.relabel_extend (base : Expr) (step : NameStep) :
    (step.extend base).relabel labels = (step.relabel labels).extend (base.relabel labels) := by
  cases step with
  | call suffix closing =>
      simp only [extend, relabel, Expr.relabel, labels.span_join, Expr.span_relabel]
  | select selector => exact Expr.relabel_select base selector
  | attributeRef designator arguments last =>
      simp only [extend, relabel, Expr.relabel, labels.span_join, Expr.span_relabel,
        CallSuffix.optionRelabel_eq]
  | qualify operand last =>
      simp only [extend, relabel, Expr.relabel, labels.span_join, Expr.span_relabel]

theorem Designator.relabel_ofChoices (choices : List Choice) (span : Span) :
    (Designator.ofChoices choices span).relabel labels =
      .ofChoices (choices.map (Choice.relabel labels)) (labels.span span) := by
  match choices with
  | [.others _] => rfl
  | [] | [.expr _] => rfl
  | first :: second :: more =>
      simp only [ofChoices, relabel, List.map_cons, Choice.relabelList_eq]
      split
      next alone => exact absurd alone (by simp)
      next => rfl

theorem Association.relabel_of (designator : Option Designator) (value : Expr) :
    (Association.of designator value).relabel labels =
      .of (designator.map (Designator.relabel labels)) (value.relabel labels) := by
  cases designator with
  | none => simp only [of, relabel, Designator.optionRelabel_eq, Option.map_none, Expr.span_relabel]
  | some designator =>
      simp only [of, relabel, Designator.optionRelabel_eq, Option.map_some, labels.span_join,
        Designator.span_relabel, Expr.span_relabel]

namespace Grammar

theorem span_associationsSpan (parts : List Association) :
    labels.span (associationsSpan parts) =
      associationsSpan (parts.map (Association.relabel labels)) := by
  cases parts with
  | nil => exact labels.span_default
  | cons first more =>
      have last : ((first :: more).map (Association.relabel labels)).getLast (by simp) =
          ((first :: more).getLast (by simp)).relabel labels := List.getLast_map _
      have parts : associationsSpan ((first :: more).map (Association.relabel labels)) =
          (first.relabel labels).span.join
            (((first :: more).map (Association.relabel labels)).getLast (by simp)).span := rfl
      rw [parts, last, Association.span_relabel, Association.span_relabel]
      rfl

/-- Operands with the comparison after each, relabelled. -/
def Compared.relabel (labels : Relabelling) (compared : Compared) : Compared :=
  compared.map (Prod.map (Expr.relabel labels) id)

theorem relabel_nestCompared (compared : Compared) (last : Expr) :
    (nestCompared compared last).relabel labels =
      nestCompared (compared.relabel labels) (last.relabel labels) := by
  induction compared generalizing last with
  | nil => rfl
  | cons pair more ih =>
      have step := ih (.ofBinary pair.1 pair.2 last)
      rw [Expr.relabel_ofBinary] at step
      exact step

end Grammar

end AdaExpressions
