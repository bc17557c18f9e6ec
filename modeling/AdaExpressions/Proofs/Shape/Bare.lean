import AdaExpressions.Expr.Shape

/-!
# Bare trees

`Expr.bare` is a tree without what its shape forgets: spans, and how the word `null` is spelt. All
else it keeps, so it has the shape of the tree.

Results: `Expr.shape_bare`.
-/

namespace AdaExpressions

def IdentForm.kind : IdentForm → Kind
  | .identifier => .identifier
  | .operatorSymbol => .string
  | .enumeration => .identifier

/-- A simple name without its span. -/
def Ident.bare (ident : Ident) : Ident :=
  ⟨ident.form, ident.form.kind, ident.token.text, default⟩

def Name.bare : Name → Name
  | .simple ident => .simple ident.bare
  | .selected base selector _ => .selected base.bare selector.bare default

/-- The token of a literal without its span. -/
def LiteralForm.bareToken (form : LiteralForm) (text : String) : Token :=
  match form with
  | .character => ⟨.char, text, default⟩
  | .number => ⟨.number, text, default⟩
  | .null => ⟨.kwNull, Kind.kwNull.spelling, default⟩
  | .designator => ⟨.ofWord text.toList, text, default⟩

mutual

/-- The tree without spans. A leaf keeps its form and its text, and its token is of the kind that
goes with them; the word `null` is spelt in one way. -/
def Expr.bare : Expr → Expr
  | .unary op operand _ => .unary op operand.bare default
  | .binary left op right _ => .binary left.bare op right.bare default
  | .membership tested op choices _ => .membership tested.bare op (Choice.bareList choices) default
  | .aggregate ancestor content _ => .aggregate (Expr.optionBare ancestor) content.bare default
  | .call callee suffix _ => .call callee.bare suffix.bare default
  | .dereference _ => .dereference default
  | .box _ => .box default
  | .ifExpr condition consequence elsifs alternative _ =>
      .ifExpr condition.bare consequence.bare (ElsifPart.bareList elsifs)
        (Expr.optionBare alternative) default
  | .caseExpr subject alternatives _ =>
      .caseExpr subject.bare (CaseAlternative.bareList alternatives) default
  | .quantified quantifier loop body _ => .quantified quantifier loop.bare body.bare default
  | .allocator subpool designated _ =>
      .allocator (Expr.optionBare subpool) designated.bare default
  | .qualified mark operand _ => .qualified mark.bare operand.bare default
  | .attributeRef base designator arguments _ =>
      .attributeRef base.bare designator.bare (CallSuffix.optionBare arguments) default
  | .raise exception message _ =>
      .raise (Expr.optionBare exception) (Expr.optionBare message) default
  | .selection base selector _ => .selection base.bare selector.bare default
  | .name path => .name path.bare
  | .literal form token => .literal form (form.bareToken token.text)

def Expr.optionBare : Option Expr → Option Expr
  | none => none
  | some expr => some expr.bare

def Choice.bare : Choice → Choice
  | .expr inner => .expr inner.bare
  | .others _ => .others default

def Choice.bareList : List Choice → List Choice
  | [] => []
  | choice :: more => choice.bare :: Choice.bareList more

def AggregateContent.bare : AggregateContent → AggregateContent
  | .fields associations _ => .fields (Association.bareList associations) default
  | .nullRecord _ => .nullRecord default

def Association.bare : Association → Association
  | .mk designator value _ => .mk (Designator.optionBare designator) value.bare default

def Association.bareList : List Association → List Association
  | [] => []
  | association :: more => association.bare :: Association.bareList more

def Designator.bare : Designator → Designator
  | .name ident => .name ident.bare
  | .others _ => .others default
  | .choices list _ => .choices (Choice.bareList list) default

def Designator.optionBare : Option Designator → Option Designator
  | none => none
  | some designator => some designator.bare

def CallSuffix.bare : CallSuffix → CallSuffix
  | .range bounds => .range bounds.bare
  | .parameters associations _ => .parameters (Association.bareList associations) default

def CallSuffix.optionBare : Option CallSuffix → Option CallSuffix
  | none => none
  | some suffix => some suffix.bare

def ElsifPart.bare : ElsifPart → ElsifPart
  | .mk condition consequence _ => .mk condition.bare consequence.bare default

def ElsifPart.bareList : List ElsifPart → List ElsifPart
  | [] => []
  | part :: more => part.bare :: ElsifPart.bareList more

def CaseAlternative.bare : CaseAlternative → CaseAlternative
  | .mk choices value _ => .mk (Choice.bareList choices) value.bare default

def CaseAlternative.bareList : List CaseAlternative → List CaseAlternative
  | [] => []
  | alternative :: more => alternative.bare :: CaseAlternative.bareList more

def LoopSpec.bare : LoopSpec → LoopSpec
  | .mk parameter iteration reversed source _ =>
      .mk parameter.bare iteration reversed source.bare default

def IterationSource.bare : IterationSource → IterationSource
  | .constrained mark constraint _ => .constrained mark.bare constraint.bare default
  | .expr inner => .expr inner.bare

end

/-! ### Shapes of bare trees -/

theorem Name.shape_bare (name : Name) : name.bare.shape = name.shape := by
  induction name with
  | simple ident => rfl
  | selected base selector span ih =>
      rw [bare, shape, shape, ih]
      rfl

mutual

theorem Expr.shape_bare : ∀ expr : Expr, expr.bare.shape = expr.shape
  | .unary op operand _ => by
      rw [Expr.bare, Expr.shape, Expr.shape_bare operand, Expr.shape]
  | .binary left op right _ => by
      rw [Expr.bare, Expr.shape, Expr.shape_bare left, Expr.shape_bare right, Expr.shape]
  | .membership tested op choices _ => by
      rw [Expr.bare, Expr.shape, Expr.shape_bare tested, Choice.shapes_bareList choices, Expr.shape]
  | .aggregate ancestor content _ => by
      rw [Expr.bare, Expr.shape, Expr.optionShape_bare ancestor,
        AggregateContent.shape_bare content, Expr.shape]
  | .call callee suffix _ => by
      rw [Expr.bare, Expr.shape, Expr.shape_bare callee, CallSuffix.shape_bare suffix, Expr.shape]
  | .dereference _ => rfl
  | .box _ => rfl
  | .ifExpr condition consequence elsifs alternative _ => by
      rw [Expr.bare, Expr.shape, Expr.shape_bare condition, Expr.shape_bare consequence,
        ElsifPart.shapes_bareList elsifs, Expr.optionShape_bare alternative, Expr.shape]
  | .caseExpr subject alternatives _ => by
      rw [Expr.bare, Expr.shape, Expr.shape_bare subject,
        CaseAlternative.shapes_bareList alternatives, Expr.shape]
  | .quantified quantifier loop body _ => by
      rw [Expr.bare, Expr.shape, LoopSpec.shape_bare loop, Expr.shape_bare body, Expr.shape]
  | .allocator subpool designated _ => by
      rw [Expr.bare, Expr.shape, Expr.optionShape_bare subpool, Expr.shape_bare designated,
        Expr.shape]
  | .qualified mark operand _ => by
      rw [Expr.bare, Expr.shape, Expr.shape_bare mark, Expr.shape_bare operand, Expr.shape]
  | .attributeRef base designator arguments _ => by
      rw [Expr.bare, Expr.shape, Expr.shape_bare base, Expr.shape_bare designator,
        CallSuffix.optionShape_bare arguments, Expr.shape]
  | .raise exception message _ => by
      rw [Expr.bare, Expr.shape, Expr.optionShape_bare exception, Expr.optionShape_bare message,
        Expr.shape]
  | .selection base selector _ => by
      rw [Expr.bare, Expr.shape, Expr.shape_bare base, Expr.shape_bare selector, Expr.shape]
  | .name path => by
      rw [Expr.bare, Expr.shape, Name.shape_bare path, Expr.shape]
  | .literal form token => by cases form <;> rfl

theorem Expr.optionShape_bare : ∀ value : Option Expr,
    Expr.optionShape (Expr.optionBare value) = Expr.optionShape value
  | none => rfl
  | some expr => by
      rw [Expr.optionBare, Expr.optionShape, Expr.shape_bare expr, Expr.optionShape]

theorem Choice.shapes_bareList : ∀ choices : List Choice,
    Choice.shapes (Choice.bareList choices) = Choice.shapes choices
  | [] => rfl
  | .expr inner :: more => by
      rw [Choice.bareList, Choice.bare, Choice.shapes, Choice.shape, Expr.shape_bare inner,
        Choice.shapes_bareList more]
      rfl
  | .others _ :: more => by
      rw [Choice.bareList, Choice.shapes, Choice.shapes_bareList more]
      rfl

theorem AggregateContent.shape_bare : ∀ content : AggregateContent,
    content.bare.shape = content.shape
  | .fields associations _ => by
      rw [AggregateContent.bare, AggregateContent.shape,
        Association.shapes_bareList "AggregateAssoc" associations, AggregateContent.shape]
  | .nullRecord _ => rfl

theorem Association.shapes_bareList (head : String) : ∀ associations : List Association,
    Association.shapes head (Association.bareList associations) =
      Association.shapes head associations
  | [] => rfl
  | .mk designator value _ :: more => by
      rw [Association.bareList, Association.bare, Association.shapes, Association.shape,
        Designator.optionShape_bare designator, Expr.shape_bare value,
        Association.shapes_bareList head more]
      rfl

theorem Designator.optionShape_bare : ∀ value : Option Designator,
    Designator.optionShape (Designator.optionBare value) = Designator.optionShape value
  | none => rfl
  | some (.name ident) => rfl
  | some (.others _) => rfl
  | some (.choices list _) => by
      rw [Designator.optionBare, Designator.bare, Designator.optionShape, Designator.shape,
        Choice.shapes_bareList list]
      rfl

theorem CallSuffix.shape_bare : ∀ suffix : CallSuffix, suffix.bare.shape = suffix.shape
  | .range bounds => by
      rw [CallSuffix.bare, CallSuffix.shape, Expr.shape_bare bounds, CallSuffix.shape]
  | .parameters associations _ => by
      rw [CallSuffix.bare, CallSuffix.shape, Association.shapes_bareList "ParamAssoc" associations,
        CallSuffix.shape]

theorem CallSuffix.optionShape_bare : ∀ value : Option CallSuffix,
    CallSuffix.optionShape (CallSuffix.optionBare value) = CallSuffix.optionShape value
  | none => rfl
  | some suffix => by
      rw [CallSuffix.optionBare, CallSuffix.optionShape, CallSuffix.shape_bare suffix,
        CallSuffix.optionShape]

theorem ElsifPart.shapes_bareList : ∀ parts : List ElsifPart,
    ElsifPart.shapes (ElsifPart.bareList parts) = ElsifPart.shapes parts
  | [] => rfl
  | .mk condition consequence _ :: more => by
      rw [ElsifPart.bareList, ElsifPart.bare, ElsifPart.shapes, ElsifPart.shape,
        Expr.shape_bare condition, Expr.shape_bare consequence, ElsifPart.shapes_bareList more]
      rfl

theorem CaseAlternative.shapes_bareList : ∀ alternatives : List CaseAlternative,
    CaseAlternative.shapes (CaseAlternative.bareList alternatives) =
      CaseAlternative.shapes alternatives
  | [] => rfl
  | .mk choices value _ :: more => by
      rw [CaseAlternative.bareList, CaseAlternative.bare, CaseAlternative.shapes,
        CaseAlternative.shape, Choice.shapes_bareList choices, Expr.shape_bare value,
        CaseAlternative.shapes_bareList more]
      rfl

theorem LoopSpec.shape_bare : ∀ loop : LoopSpec, loop.bare.shape = loop.shape
  | .mk parameter iteration reversed source _ => by
      rw [LoopSpec.bare, LoopSpec.shape, IterationSource.shape_bare source]
      rfl

theorem IterationSource.shape_bare : ∀ source : IterationSource,
    source.bare.shape = source.shape
  | .constrained mark constraint _ => by
      rw [IterationSource.bare, IterationSource.shape, Expr.shape_bare mark,
        Expr.shape_bare constraint, IterationSource.shape]
  | .expr inner => by
      rw [IterationSource.bare, IterationSource.shape, Expr.shape_bare inner,
        IterationSource.shape]

end

end AdaExpressions
