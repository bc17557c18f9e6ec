import AdaExpressions.Proofs.Shape.Bare

/-!
# Reading a shape back

The bare tree can be read off the shape again, so a shape is that of one bare tree.

A bound, a choice and what a loop runs over have the shape of the expression they are. What tells
the other cases apart is that no expression has the shape of a list, of `others`, of a constrained
subtype, or the one that stands for nothing.

Results: `Expr.ofShape?_shape` (a shape read back), `Expr.shape_eq_iff`.
-/

namespace AdaExpressions

/-! ### Reading a shape back -/

namespace Op

/-- Every operator, once. -/
def every : List Op :=
  logical ++ membership ++ relational ++ adding ++ multiplying ++ highestUnary ++ exponent ++
    [.range]

def ofName? (text : String) : Option Op :=
  every.find? (·.name == text)

theorem ofName?_name (op : Op) : ofName? op.name = some op := by
  cases op <;> decide +kernel

end Op

def Quantifier.ofSpelling? (text : String) : Option Quantifier :=
  [.universal, .existential].find? (·.word.spelling == text)

/-- How a loop goes on, from the words for it. -/
def Iteration.ofPhrase? (text : String) : Option (Iteration × Bool) :=
  [(.values, false), (.values, true), (.elements, false), (.elements, true)].find?
    fun (iteration, reversed) => iteration.phrase reversed == text

def Ident.ofShape? : Shape → Option Ident
  | .node "Id" [.text text] => some ⟨.identifier, .identifier, text, default⟩
  | .node "Str" [.text text] => some ⟨.operatorSymbol, .string, text, default⟩
  | .node "EnumId" [.text text] => some ⟨.enumeration, .identifier, text, default⟩
  | _ => none

def Name.ofShape? : Shape → Option Name
  | .node "NamePrefix" [base, selector] => do
      return .selected (← Name.ofShape? base) (← Ident.ofShape? selector) default
  | shape => do return .simple (← Ident.ofShape? shape)

/-- Nothing, where the shape stands for that, or else `value`. -/
def Shape.optional? {α : Type} (shape : Shape) (value : Option α) : Option (Option α) :=
  match shape with
  | .text "None" => some .none
  | _ => value.map some

mutual

def Expr.ofShape? : Shape → Option Expr
  | .text "AccessDeref" => some (.dereference default)
  | .text "DiamondExpr" => some (.box default)
  | .text "Null" => some (.literal .null (LiteralForm.null.bareToken ""))
  | .node "Chr" [.text text] => some (.literal .character (LiteralForm.character.bareToken text))
  | .node "Num" [.text text] => some (.literal .number (LiteralForm.number.bareToken text))
  | .node "Attr" [.text text] => some (.literal .designator (LiteralForm.designator.bareToken text))
  | .node "UnOp" [.text op, operand] => do
      return .unary (← Op.ofName? op) (← Expr.ofShape? operand) default
  | .node "BinOp" [left, .text op, right] => do
      return .binary (← Expr.ofShape? left) (← Op.ofName? op) (← Expr.ofShape? right) default
  | .node "MembershipExpr" [tested, .text op, .list _ choices] => do
      return .membership (← Expr.ofShape? tested) (← Op.ofName? op) (← Choice.ofShapes? choices)
        default
  | .node "Aggregate" [ancestor, content] => do
      return .aggregate (← ancestor.optional? (Expr.ofShape? ancestor))
        (← AggregateContent.ofShape? content) default
  | .node "CallExpr" [callee, suffix] => do
      return .call (← Expr.ofShape? callee)
        (← CallSuffix.ofShape? suffix (Expr.ofShape? suffix)) default
  | .node "IfExpr" [condition, consequence, .list _ elsifs, alternative] => do
      return .ifExpr (← Expr.ofShape? condition) (← Expr.ofShape? consequence)
        (← ElsifPart.ofShapes? elsifs) (← alternative.optional? (Expr.ofShape? alternative)) default
  | .node "CaseExpr" [subject, .list _ alternatives] => do
      return .caseExpr (← Expr.ofShape? subject) (← CaseAlternative.ofShapes? alternatives) default
  | .node "QuantifiedExpr" [.text quantifier, .node _ [parameter, .text phrase, source], body] => do
      let (iteration, reversed) ← Iteration.ofPhrase? phrase
      return .quantified (← Quantifier.ofSpelling? quantifier)
        (.mk (← Ident.ofShape? parameter) iteration reversed
          (← IterationSource.ofShape? source (Expr.ofShape? source)) default)
        (← Expr.ofShape? body) default
  | .node "Allocator" [subpool, designated] => do
      return .allocator (← subpool.optional? (Expr.ofShape? subpool)) (← Expr.ofShape? designated)
        default
  | .node "QualExpr" [mark, operand] => do
      return .qualified (← Expr.ofShape? mark) (← Expr.ofShape? operand) default
  | .node "AttributeRef" [base, designator, arguments] => do
      return .attributeRef (← Expr.ofShape? base) (← Expr.ofShape? designator)
        (← arguments.optional? (CallSuffix.ofShape? arguments (Expr.ofShape? arguments))) default
  | .node "RaiseExpression" [exception, message] => do
      return .raise (← exception.optional? (Expr.ofShape? exception))
        (← message.optional? (Expr.ofShape? message)) default
  | .node "Prefix" [base, selector] => do
      return .selection (← Expr.ofShape? base) (← Expr.ofShape? selector) default
  | shape => do return .name (← Name.ofShape? shape)

def Choice.ofShapes? : List Shape → Option (List Choice)
  | [] => some []
  | .text "OthersDesignator" :: more => do return .others default :: (← Choice.ofShapes? more)
  | shape :: more => do return .expr (← Expr.ofShape? shape) :: (← Choice.ofShapes? more)

def AggregateContent.ofShape? : Shape → Option AggregateContent
  | .list _ parts => do return .fields (← Association.ofShapes? parts) default
  | _ => some (.nullRecord default)

def Association.ofShapes? : List Shape → Option (List Association)
  | [] => some []
  | .node _ [designator, value] :: more => do
      return .mk (← designator.optional? (Designator.ofShape? designator)) (← Expr.ofShape? value)
        default :: (← Association.ofShapes? more)
  | _ => none

def Designator.ofShape? : Shape → Option Designator
  | .text _ => some (.others default)
  | .list _ choices => do return .choices (← Choice.ofShapes? choices) default
  | shape => do return .name (← Ident.ofShape? shape)

/-- `bounds` is what the shape is read as if it is that of an expression. -/
def CallSuffix.ofShape? (shape : Shape) (bounds : Option Expr) : Option CallSuffix :=
  match shape with
  | .list _ parts => do return .parameters (← Association.ofShapes? parts) default
  | _ => bounds.map .range

def ElsifPart.ofShapes? : List Shape → Option (List ElsifPart)
  | [] => some []
  | .node _ [condition, consequence] :: more => do
      return .mk (← Expr.ofShape? condition) (← Expr.ofShape? consequence) default ::
        (← ElsifPart.ofShapes? more)
  | _ => none

def CaseAlternative.ofShapes? : List Shape → Option (List CaseAlternative)
  | [] => some []
  | .node _ [.list _ choices, value] :: more => do
      return .mk (← Choice.ofShapes? choices) (← Expr.ofShape? value) default ::
        (← CaseAlternative.ofShapes? more)
  | _ => none

/-- `expr` is what the shape is read as if it is that of an expression. -/
def IterationSource.ofShape? (shape : Shape) (expr : Option Expr) : Option IterationSource :=
  match shape with
  | .node "ConstrainedSubtype" [mark, constraint] => do
      return .constrained (← Expr.ofShape? mark) (← Expr.ofShape? constraint) default
  | _ => expr.map .expr

end

/-! ### What is read is the bare tree -/

theorem Quantifier.ofSpelling?_spelling (quantifier : Quantifier) :
    ofSpelling? quantifier.word.spelling = some quantifier := by
  cases quantifier <;> decide +kernel

theorem Iteration.ofPhrase?_phrase (iteration : Iteration) (reversed : Bool) :
    ofPhrase? (iteration.phrase reversed) = some (iteration, reversed) := by
  cases iteration <;> cases reversed <;> decide +kernel

theorem Ident.ofShape?_shape (ident : Ident) : ofShape? ident.shape = some ident.bare := by
  obtain ⟨form, token⟩ := ident
  cases form <;> rfl

theorem Name.ofShape?_shape (name : Name) : ofShape? name.shape = some name.bare := by
  induction name with
  | simple ident =>
      have read : ofShape? ident.shape = (do return .simple (← Ident.ofShape? ident.shape)) := by
        obtain ⟨form, token⟩ := ident
        cases form <;> rfl
      rw [shape, read, Ident.ofShape?_shape]
      rfl
  | selected base selector span ih =>
      rw [shape, ofShape?, ih, Ident.ofShape?_shape]
      rfl

theorem Expr.ofShape?_name (name : Name) :
    Expr.ofShape? name.shape = (do return .name (← Name.ofShape? name.shape)) := by
  cases name with
  | simple ident =>
      obtain ⟨form, token⟩ := ident
      cases form <;> rfl
  | selected base selector span => rfl

/-- The shape is none that stands for something else where an expression can stand. -/
structure Shape.Apart (shape : Shape) : Prop where
  some_ : shape ≠ .none
  choice : shape ≠ .text "OthersDesignator"
  single : ∀ head items, shape ≠ .list head items
  source : ∀ arguments, shape ≠ .node "ConstrainedSubtype" arguments

theorem Shape.apart_node {head : String} (arguments : List Shape)
    (other : head ≠ "ConstrainedSubtype") : (Shape.node head arguments).Apart where
  some_ := nofun
  choice := nofun
  single := nofun
  source := fun _ same => other (Shape.node.inj same).1

theorem Shape.apart_text {content : String} (other : content ∉ ["None", "OthersDesignator"]) :
    (Shape.text content).Apart where
  some_ := fun same => other (Shape.text.inj same ▸ List.mem_cons_self)
  choice := fun same => other (Shape.text.inj same ▸ List.mem_cons_of_mem _ List.mem_cons_self)
  single := nofun
  source := nofun

theorem Expr.shape_apart (expr : Expr) : expr.shape.Apart := by
  cases expr with
  | dereference | box => exact Shape.apart_text (by decide)
  | literal form token =>
      cases form with
      | null => exact Shape.apart_text (by decide)
      | _ => exact Shape.apart_node _ (by decide)
  | name path =>
      cases path with
      | simple ident =>
          obtain ⟨form, token⟩ := ident
          cases form <;> exact Shape.apart_node _ (by simp)
      | selected => exact Shape.apart_node _ (by decide)
  | _ => exact Shape.apart_node _ (by decide)

theorem Shape.optional?_of_ne {α : Type} {shape : Shape} (some_ : shape ≠ .none) (value : α) :
    shape.optional? (some value) = some (some value) := by
  unfold optional?
  split
  · exact absurd rfl some_
  · rfl

theorem CallSuffix.ofShape?_of_ne {shape : Shape} (single : ∀ head items, shape ≠ .list head items)
    (bounds : Option Expr) : ofShape? shape bounds = bounds.map .range := by
  cases shape with
  | list head items => exact absurd rfl (single head items)
  | _ => rfl

theorem IterationSource.ofShape?_of_ne {shape : Shape}
    (source : ∀ arguments, shape ≠ .node "ConstrainedSubtype" arguments) (expr : Option Expr) :
    ofShape? shape expr = expr.map .expr := by
  unfold ofShape?
  split
  · exact absurd rfl (source _)
  · rfl

mutual

/-- A shape read back gives the bare tree: its parts do, and are put together again. -/
theorem Expr.ofShape?_shape : ∀ expr : Expr, Expr.ofShape? expr.shape = some expr.bare
  | .unary op operand _ => by
      rw [Expr.shape, Op.shape, Expr.ofShape?, Op.ofName?_name, Expr.ofShape?_shape operand]
      rfl
  | .binary left op right _ => by
      rw [Expr.shape, Op.shape, Expr.ofShape?, Expr.ofShape?_shape left, Op.ofName?_name,
        Expr.ofShape?_shape right]
      rfl
  | .membership tested op choices _ => by
      rw [Expr.shape, Op.shape, Expr.ofShape?, Expr.ofShape?_shape tested, Op.ofName?_name,
        Choice.ofShapes?_shapes choices]
      rfl
  | .aggregate ancestor content _ => by
      rw [Expr.shape, Expr.ofShape?, Expr.optional?_optionShape ancestor,
        AggregateContent.ofShape?_shape content]
      rfl
  | .call callee suffix _ => by
      rw [Expr.shape, Expr.ofShape?, Expr.ofShape?_shape callee, CallSuffix.ofShape?_shape suffix]
      rfl
  | .dereference _ => rfl
  | .box _ => rfl
  | .ifExpr condition consequence elsifs alternative _ => by
      rw [Expr.shape, Expr.ofShape?, Expr.ofShape?_shape condition, Expr.ofShape?_shape consequence,
        ElsifPart.ofShapes?_shapes elsifs, Expr.optional?_optionShape alternative]
      rfl
  | .caseExpr subject alternatives _ => by
      rw [Expr.shape, Expr.ofShape?, Expr.ofShape?_shape subject,
        CaseAlternative.ofShapes?_shapes alternatives]
      rfl
  | .quantified quantifier (.mk parameter iteration reversed source _) body _ => by
      rw [Expr.shape, LoopSpec.shape, Expr.ofShape?, Iteration.ofPhrase?_phrase,
        Quantifier.ofSpelling?_spelling, Ident.ofShape?_shape,
        IterationSource.ofShape?_shape source, Expr.ofShape?_shape body]
      rfl
  | .allocator subpool designated _ => by
      rw [Expr.shape, Expr.ofShape?, Expr.optional?_optionShape subpool,
        Expr.ofShape?_shape designated]
      rfl
  | .qualified mark operand _ => by
      rw [Expr.shape, Expr.ofShape?, Expr.ofShape?_shape mark, Expr.ofShape?_shape operand]
      rfl
  | .attributeRef base designator arguments _ => by
      rw [Expr.shape, Expr.ofShape?, Expr.ofShape?_shape base, Expr.ofShape?_shape designator,
        CallSuffix.optional?_optionShape arguments]
      rfl
  | .raise exception message _ => by
      rw [Expr.shape, Expr.ofShape?, Expr.optional?_optionShape exception,
        Expr.optional?_optionShape message]
      rfl
  | .selection base selector _ => by
      rw [Expr.shape, Expr.ofShape?, Expr.ofShape?_shape base, Expr.ofShape?_shape selector]
      rfl
  | .name path => by
      rw [Expr.shape, Expr.ofShape?_name, Name.ofShape?_shape]
      rfl
  | .literal form token => by cases form <;> rfl

theorem Expr.optional?_optionShape : ∀ value : Option Expr,
    (Expr.optionShape value).optional? (Expr.ofShape? (Expr.optionShape value)) =
      some (Expr.optionBare value)
  | none => rfl
  | some expr => by
      rw [Expr.optionShape, Expr.ofShape?_shape expr, Shape.optional?_of_ne expr.shape_apart.some_]
      rfl

theorem Choice.ofShapes?_shapes : ∀ choices : List Choice,
    Choice.ofShapes? (Choice.shapes choices) = some (Choice.bareList choices)
  | [] => rfl
  | .expr inner :: more => by
      rw [Choice.shapes, Choice.shape, Choice.ofShapes?, Expr.ofShape?_shape inner,
        Choice.ofShapes?_shapes more]
      · rfl
      · exact inner.shape_apart.choice
  | .others _ :: more => by
      rw [Choice.shapes, Choice.shape, Choice.ofShapes?, Choice.ofShapes?_shapes more]
      rfl

theorem AggregateContent.ofShape?_shape : ∀ content : AggregateContent,
    AggregateContent.ofShape? content.shape = some content.bare
  | .fields associations _ => by
      rw [AggregateContent.shape, AggregateContent.ofShape?,
        Association.ofShapes?_shapes "AggregateAssoc" associations]
      rfl
  | .nullRecord _ => rfl

theorem Association.ofShapes?_shapes (head : String) : ∀ associations : List Association,
    Association.ofShapes? (Association.shapes head associations) =
      some (Association.bareList associations)
  | [] => rfl
  | .mk designator value _ :: more => by
      rw [Association.shapes, Association.shape, Association.ofShapes?,
        Designator.optional?_optionShape designator, Expr.ofShape?_shape value,
        Association.ofShapes?_shapes head more]
      rfl

theorem Designator.optional?_optionShape : ∀ value : Option Designator,
    (Designator.optionShape value).optional? (Designator.ofShape? (Designator.optionShape value)) =
      some (Designator.optionBare value)
  | none => rfl
  | some (.name ident) => by
      obtain ⟨form, token⟩ := ident
      cases form <;> rfl
  | some (.others _) => rfl
  | some (.choices list _) => by
      rw [Designator.optionShape, Designator.shape, Designator.ofShape?,
        Choice.ofShapes?_shapes list]
      rfl

theorem CallSuffix.ofShape?_shape : ∀ suffix : CallSuffix,
    CallSuffix.ofShape? suffix.shape (Expr.ofShape? suffix.shape) = some suffix.bare
  | .range bounds => by
      rw [CallSuffix.shape, CallSuffix.ofShape?_of_ne bounds.shape_apart.single,
        Expr.ofShape?_shape bounds]
      rfl
  | .parameters associations _ => by
      rw [CallSuffix.shape, CallSuffix.ofShape?,
        Association.ofShapes?_shapes "ParamAssoc" associations]
      rfl

theorem CallSuffix.optional?_optionShape : ∀ value : Option CallSuffix,
    (CallSuffix.optionShape value).optional?
        (CallSuffix.ofShape? (CallSuffix.optionShape value)
          (Expr.ofShape? (CallSuffix.optionShape value))) =
      some (CallSuffix.optionBare value)
  | none => rfl
  | some suffix => by
      have some_ : suffix.shape ≠ .none := by
        cases suffix with
        | range bounds => exact bounds.shape_apart.some_
        | parameters associations => exact nofun
      rw [CallSuffix.optionShape, CallSuffix.ofShape?_shape suffix, Shape.optional?_of_ne some_]
      rfl

theorem ElsifPart.ofShapes?_shapes : ∀ parts : List ElsifPart,
    ElsifPart.ofShapes? (ElsifPart.shapes parts) = some (ElsifPart.bareList parts)
  | [] => rfl
  | .mk condition consequence _ :: more => by
      rw [ElsifPart.shapes, ElsifPart.shape, ElsifPart.ofShapes?, Expr.ofShape?_shape condition,
        Expr.ofShape?_shape consequence, ElsifPart.ofShapes?_shapes more]
      rfl

theorem CaseAlternative.ofShapes?_shapes : ∀ alternatives : List CaseAlternative,
    CaseAlternative.ofShapes? (CaseAlternative.shapes alternatives) =
      some (CaseAlternative.bareList alternatives)
  | [] => rfl
  | .mk choices value _ :: more => by
      rw [CaseAlternative.shapes, CaseAlternative.shape, CaseAlternative.ofShapes?,
        Choice.ofShapes?_shapes choices, Expr.ofShape?_shape value,
        CaseAlternative.ofShapes?_shapes more]
      rfl

theorem IterationSource.ofShape?_shape : ∀ source : IterationSource,
    IterationSource.ofShape? source.shape (Expr.ofShape? source.shape) = some source.bare
  | .constrained mark constraint _ => by
      rw [IterationSource.shape, IterationSource.ofShape?, Expr.ofShape?_shape mark,
        Expr.ofShape?_shape constraint]
      rfl
  | .expr inner => by
      rw [IterationSource.shape, IterationSource.ofShape?_of_ne inner.shape_apart.source,
        Expr.ofShape?_shape inner]
      rfl

end

/-- Trees have one shape if and only if they are bare the same. -/
theorem Expr.shape_eq_iff {expr other : Expr} :
    expr.shape = other.shape ↔ expr.bare = other.bare := by
  constructor
  · intro same
    have read := expr.ofShape?_shape
    rw [same, other.ofShape?_shape] at read
    exact (Option.some.inj read).symm
  · intro same
    rw [← expr.shape_bare, same, other.shape_bare]

end AdaExpressions
