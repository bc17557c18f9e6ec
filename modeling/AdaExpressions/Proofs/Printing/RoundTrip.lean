import AdaExpressions.Proofs.Printing.Aggregates
import AdaExpressions.Proofs.Printing.Operators
import AdaExpressions.Proofs.Tree.Forming

/-!
# Printing what was read

A tree that was read is formed, and what is printed for a formed tree is read back as a tree of its
shape, with two exceptions. One positional component alone in an aggregate is read back without the
aggregate, and an ancestor that ends in a raise expression without a message takes the rest of its
aggregate for one. A third condition is on the text: the apostrophes in it have to be read as what
they are written for.

Results: `Formed.isReread`, `parse_sourceText_of_accepted`.
-/

namespace AdaExpressions

open Lexeme (TokenText)

/-! ### Shapes that are kept -/

namespace Shape

mutual

/-- The check holds of the shape and of all its parts. -/
def every (check : Shape → Bool) : Shape → Bool
  | .text content => check (.text content)
  | .node head arguments => check (.node head arguments) && everyOf check arguments
  | .list head items => check (.list head items) && everyOf check items

def everyOf (check : Shape → Bool) : List Shape → Bool
  | [] => true
  | shape :: more => shape.every check && everyOf check more

end

/-- What is printed for the shape ends in a raise expression that has an exception and no message. -/
def endsInRaise : Shape → Bool
  | .node "RaiseExpression" [.text "None", .text "None"] => false
  | .node "RaiseExpression" [_, .text "None"] => true
  | .node "RaiseExpression" [_, message] => message.endsInRaise
  | _ => false

/-- An aggregate is read back as one if it is not a single expression in parentheses and its
ancestor, if it has one, does not go on with the word `with`. -/
def isKept : Shape → Bool
  | .node "Aggregate" [.text "None", .list _ [.node _ [.text "None", value]]] =>
      match value with
      | .text "DiamondExpr" => true
      | _ => false
  | .node "Aggregate" [ancestor, _] => !ancestor.endsInRaise
  | _ => true

variable {check : Shape → Bool} {head : String} {parts : List Shape}
  {first second third fourth : Shape}

theorem every_of_everyOf (kept : everyOf check parts = true) :
    ∀ shape ∈ parts, shape.every check = true := by
  induction parts with
  | nil => exact List.forall_mem_nil _
  | cons shape more ih =>
      obtain ⟨here, behind⟩ := Bool.and_eq_true_iff.mp kept
      exact List.forall_mem_cons.mpr ⟨here, ih behind⟩

theorem every_node (kept : (node head parts).every check = true) :
    ∀ shape ∈ parts, shape.every check = true :=
  every_of_everyOf (Bool.and_eq_true_iff.mp kept).2

theorem every_first (kept : (node head (first :: parts)).every check = true) :
    first.every check = true :=
  every_node kept _ (by simp)

theorem every_second (kept : (node head (first :: second :: parts)).every check = true) :
    second.every check = true :=
  every_node kept _ (by simp)

theorem every_third (kept : (node head (first :: second :: third :: parts)).every check = true) :
    third.every check = true :=
  every_node kept _ (by simp)

theorem every_fourth
    (kept : (node head (first :: second :: third :: fourth :: parts)).every check = true) :
    fourth.every check = true :=
  every_node kept _ (by simp)

theorem every_map {α : Type} {view : α → Shape} {items : List α}
    (kept : (list head (items.map view)).every check = true) :
    ∀ item ∈ items, (view item).every check = true := fun _ member =>
  every_of_everyOf (Bool.and_eq_true_iff.mp kept).2 _ (List.mem_map_of_mem member)

end Shape

section

variable {check : Shape → Bool} {head : String}

theorem Choice.every_shape {choices : List Choice}
    (kept : (Shape.list head (Choice.shapes choices)).every check = true) :
    ∀ choice ∈ choices, choice.shape.every check = true :=
  Shape.every_map (Choice.shapes_eq _ ▸ kept)

theorem ElsifPart.every_shape {parts : List ElsifPart}
    (kept : (Shape.list head (ElsifPart.shapes parts)).every check = true) :
    ∀ part ∈ parts, part.shape.every check = true :=
  Shape.every_map (ElsifPart.shapes_eq _ ▸ kept)

theorem CaseAlternative.every_shape {parts : List CaseAlternative}
    (kept : (Shape.list head (CaseAlternative.shapes parts)).every check = true) :
    ∀ part ∈ parts, part.shape.every check = true :=
  Shape.every_map (CaseAlternative.shapes_eq _ ▸ kept)

theorem Association.every_shape {name : String} {parts : List Association}
    (kept : (Shape.list head (Association.shapes name parts)).every check = true) :
    ∀ part ∈ parts, (part.shape name).every check = true :=
  Shape.every_map (Association.shapes_eq _ _ ▸ kept)

end

theorem Expr.shape_ne_none (expr : Expr) : expr.shape ≠ .text "None" := fun same => by
  rcases Expr.text_of_shape same with known | ⟨known, _⟩
  · exact absurd known (by decide)
  · exact absurd known (by decide)

theorem Shape.endsInRaise_name (exception : Expr) :
    endsInRaise (.node "RaiseExpression" [exception.shape, .none]) = true := by
  have none_ := exception.shape_ne_none
  unfold Shape.none
  unfold endsInRaise
  split <;> simp_all

theorem Shape.endsInRaise_message (exception message : Expr) :
    endsInRaise (.node "RaiseExpression" [exception.shape, message.shape]) =
      message.shape.endsInRaise := by
  have none_ := message.shape_ne_none
  conv => lhs; unfold endsInRaise
  split <;> simp_all

theorem AggregateContent.isSole_of_isKept {content : AggregateContent}
    (kept : Shape.isKept (.node "Aggregate" [.none, content.shape]) = true) :
    content.isSole = false := by
  match content with
  | .nullRecord _ => rfl
  | .fields [] _ => rfl
  | .fields (_ :: _ :: _) _ => rfl
  | .fields [.mk (some _) _ _] _ => rfl
  | .fields [.mk none value _] _ =>
      simp only [AggregateContent.shape, Association.shapes, Association.shape, Shape.isKept,
        Designator.optionShape, Shape.none] at kept
      split at kept
      · next same =>
          rcases Expr.text_of_shape same with known | ⟨_, _, rfl⟩
          · exact absurd known (by decide)
          · rfl
      · cases kept

theorem Shape.endsInRaise_of_isKept {ancestor : Expr} {content : Shape}
    (kept : isKept (.node "Aggregate" [ancestor.shape, content]) = true) :
    ancestor.shape.endsInRaise = false := by
  have none_ := ancestor.shape_ne_none
  unfold isKept at kept
  split at kept <;> simp_all

/-! ### What is read back -/

/-- The pieces behind the tick of a qualified expression: an aggregate has its own parentheses. -/
def Expr.qualifiedPieces : Expr → List Piece
  | .aggregate ancestor content span => (Expr.aggregate ancestor content span).pieces
  | operand => Piece.parenthesized operand.pieces

/-- What is printed for the tree is read back wherever it is printed bare. -/
structure Expr.IsReread (tree : Expr) : Prop extends Expr.IsRead tree where
  ancestor : tree.shape.endsInRaise = false → ExprPieces printedFollow tree.pieces tree.shape
  qualified {bare : Bool} {pieces : List Piece} {mark : Shape} : NamePieces bare pieces mark →
    NamePieces false (pieces ++ .word .tick :: tree.qualifiedPieces)
      (.node "QualExpr" [mark, tree.shape])

namespace Expr

variable {tree : Expr}

theorem isReread_of_primary (simple : tree.isCompound = false)
    (bare : tree.qualifiedPieces = Piece.parenthesized tree.pieces)
    (primary : PrimaryPieces tree.pieces tree.shape) : tree.IsReread where
  toIsRead := isRead_of_primary simple primary
  ancestor := fun _ => primary.expression
  qualified := fun mark => bare ▸ mark.qualified primary.expression (by decide)

theorem isReread_of_compound (compound : tree.isCompound = true)
    (bare : tree.qualifiedPieces = Piece.parenthesized tree.pieces)
    (whole : ExprPieces printedFollow tree.pieces tree.shape) : tree.IsReread where
  toIsRead := isRead_of_compound compound whole
  ancestor := fun _ => whole
  qualified := fun mark => bare ▸ mark.qualified whole (by decide)

theorem isReread_of_raise {exception message : Option Expr} {span : Span}
    (whole : ExprPieces raiseFollow (raise exception message span).pieces
      (raise exception message span).shape)
    (closed : (raise exception message span).shape.endsInRaise = false →
      ExprPieces printedFollow (raise exception message span).pieces
        (raise exception message span).shape) : (raise exception message span).IsReread where
  whole := whole
  operand := whole.parenthesized (by decide)
  ancestor := closed
  qualified := fun mark => mark.qualified whole (by decide)

theorem isReread_of_aggregate {ancestor : Option Expr} {content : AggregateContent} {span : Span}
    {inner : List Piece} (pieces : (aggregate ancestor content span).pieces = Piece.parenthesized inner)
    (whole : AggregatePieces inner (aggregate ancestor content span).shape) :
    (aggregate ancestor content span).IsReread where
  toIsRead := isRead_of_primary rfl (pieces ▸ whole.primary)
  ancestor := fun _ => (pieces ▸ whole.primary).expression
  qualified := fun mark => by
    rw [qualifiedPieces, pieces]
    exact whole.qualified mark

end Expr

def ExprForm.IsReread : ExprForm → Expr → Prop
  | .expression, tree => tree.IsReread
  | .name, tree => NamePieces tree.isBareAttribute tree.pieces tree.shape
  | .direct, tree => DirectPieces tree.pieces tree.shape
  | .attribute, tree => AttributePieces tree.pieces tree.shape
  | .range, tree => RangePieces tree.pieces tree.shape
  | .scope, tree => ScopePieces tree.pieces tree.shape ∧
      ChoicePieces (tree.operandPieces tree.pieces) tree.shape
  | .value, tree => ValuePieces tree.pieces tree.shape

def TreeForm.IsReread : (form : TreeForm) → form.Node → Prop
  | .expr form, node => form.IsReread node
  | .choice, node => ChoicePieces (Choice.pieces node) (Choice.shape node)
  | .parameter, node => ParameterPieces (Association.pieces node) (Association.shape "ParamAssoc" node)
  | .suffix, node => ∃ pieces, CallSuffix.pieces node = Piece.parenthesized pieces ∧
      SuffixPieces pieces (CallSuffix.shape node)
  | .association, node => ComponentPieces (Association.isPositional node) (Association.pieces node)
      (Association.shape "AggregateAssoc" node)
  | .content, node => ContentPieces (AggregateContent.isSole node) (AggregateContent.pieces node)
      (AggregateContent.shape node)
  | .elsif, node => ElsifPart.IsRead node
  | .alternative, node => AlternativePieces (CaseAlternative.bodyPieces node)
      (CaseAlternative.shape node)
  | .loop, node => LoopPieces (LoopSpec.pieces node) (LoopSpec.shape node)
  | .source, node => SourcePieces (IterationSource.pieces node) (IterationSource.shape node)

def TreeForm.shape : (form : TreeForm) → form.Node → Shape
  | .expr _ => Expr.shape
  | .choice => Choice.shape
  | .parameter => Association.shape "ParamAssoc"
  | .suffix => CallSuffix.shape
  | .association => Association.shape "AggregateAssoc"
  | .content => AggregateContent.shape
  | .elsif => ElsifPart.shape
  | .alternative => CaseAlternative.shape
  | .loop => LoopSpec.shape
  | .source => IterationSource.shape

theorem Name.shape_selected {base : Name} {selector : Ident} (plain : selector.form ≠ .enumeration) :
    Shape.selected base.shape selector.shape = .node "NamePrefix" [base.shape, selector.shape] := by
  have whole := Expr.shape_select (.name base) (.name (.simple selector))
  simpa [Expr.select, plain, Expr.shape, Name.shape, Name.select] using whole.symm

/-- What is selected out of a name is a name only if it is a simple one. -/
theorem Expr.shape_selection {base selector : Expr} {span : Span}
    (apart : base.asName?.isSome = true → selector.isIdent = false) :
    Shape.selected base.shape selector.shape = (selection base selector span).shape := by
  have no : (base.shape.isName && selector.shape.isIdent) = false := by
    refine Bool.eq_false_iff.mpr fun both => ?_
    obtain ⟨named, simple⟩ := Bool.and_eq_true_iff.mp both
    obtain ⟨path, rfl⟩ := exists_name_of_shape named
    obtain ⟨ident, rfl⟩ := exists_ident_of_shape simple
    cases apart rfl
  rw [Shape.selected, no]
  rfl

/-- A name stands where an operand stands, and in parentheses behind a tick. -/
theorem Formed.simple_of_name {tree : Expr} (formed : Formed (.expr .name) tree) :
    tree.isCompound = false ∧ tree.qualifiedPieces = Piece.parenthesized tree.pieces := by
  cases formed with
  | direct direct => cases direct <;> exact ⟨rfl, rfl⟩
  | _ => exact ⟨rfl, rfl⟩

theorem Designator.ofChoices_of_ne {choices : List Choice} {span : Span}
    (apart : ∀ othersSpan, choices ≠ [.others othersSpan]) :
    ofChoices choices span = .choices choices span := by
  unfold ofChoices
  split
  · exact absurd rfl (apart _)
  · rfl

theorem Ident.Proper.text {ident : Ident} (proper : ident.Proper) :
    TokenText (if ident.form = .operatorSymbol then .string else .identifier)
      ident.token.text.toList :=
  proper.2.2 ▸ proper.2.1

theorem Formed.isReread {form : TreeForm} {node : form.Node} (formed : Formed form node)
    (kept : (form.shape node).every Shape.isKept = true) : form.IsReread node := by
  induction formed with
  | unary known _ operand =>
      have inner := operand (Shape.every_second kept)
      refine Expr.isReread_of_compound rfl rfl ?_
      simpa [Expr.pieces, Expr.shape] using inner.operand.unary known
  | binary known _ _ left right =>
      have first := left (Shape.every_first kept)
      have second := right (Shape.every_third kept)
      refine Expr.isReread_of_compound (Op.ne_range_of_binary _ known) rfl ?_
      simpa [Expr.pieces, Expr.shape] using first.operand.binary known second.operand
  | @membership _ _ choices _ known _ some_ _ tested each =>
      have first := tested (Shape.every_first kept)
      have list := Choice.every_shape (Shape.every_third kept)
      refine Expr.isReread_of_compound rfl rfl ?_
      rw [Expr.pieces, Expr.shape]
      exact first.operand.membership known some_ fun choice member =>
        each choice member (list choice member)
  | @number token found proper =>
      have text : TokenText .number token.text.toList := found ▸ proper
      exact Expr.isReread_of_primary rfl rfl (PrimaryPieces.number text)
  | @null token found proper =>
      have text : TokenText .kwNull token.text.toList := found ▸ proper
      exact Expr.isReread_of_primary rfl rfl (PrimaryPieces.null text)
  | name formed name =>
      obtain ⟨simple, bare⟩ := formed.simple_of_name
      exact Expr.isReread_of_primary simple bare (NamePieces.primary (name kept))
  | new _ designated =>
      have inner : NamePieces _ _ _ := designated (Shape.every_second kept)
      exact Expr.isReread_of_primary rfl rfl inner.new
  | newIn _ _ subpool designated =>
      have first : NamePieces _ _ _ := subpool (Shape.every_first kept)
      have second : NamePieces _ _ _ := designated (Shape.every_second kept)
      refine Expr.isReread_of_primary rfl rfl ?_
      simpa [Expr.pieces, Expr.shape, Expr.optionShape] using first.newIn second
  | reraise =>
      have whole := ExprPieces.reraise
      exact Expr.isReread_of_raise
        (whole.mono (List.Subset.refl _) (List.Subset.refl _) (by decide)) fun _ => whole
  | @raiseName exception _ _ name =>
      have inner : NamePieces _ _ _ := name (Shape.every_first kept)
      refine Expr.isReread_of_raise ?_ fun closed => ?_
      · simpa [Expr.pieces, Expr.shape, Expr.optionShape] using inner.raise
      · cases closed.symm.trans (Shape.endsInRaise_name exception)
  | @raiseMessage exception message _ _ _ name said =>
      have inner : NamePieces _ _ _ := name (Shape.every_first kept)
      have text : Expr.IsReread message := said (Shape.every_second kept)
      refine Expr.isReread_of_raise ?_ fun closed => ?_
      · simpa [Expr.pieces, Expr.shape, Expr.optionShape] using
          ExprPieces.raiseMessage inner text.whole (by decide)
      · have ends := text.ancestor ((Shape.endsInRaise_message exception message).symm.trans closed)
        simpa [Expr.pieces, Expr.shape, Expr.optionShape] using
          ExprPieces.raiseMessage inner ends (List.Subset.refl _)
  | @aggregate content _ _ whole =>
      have inner : ContentPieces _ _ _ := whole (Shape.every_second kept)
      have sole : content.isSole = false :=
        AggregateContent.isSole_of_isKept (Bool.and_eq_true_iff.mp kept).1
      rw [sole] at inner
      exact Expr.isReread_of_aggregate rfl inner.aggregate
  | @extension ancestor content _ _ _ front whole =>
      have first : Expr.IsReread ancestor := front (Shape.every_first kept)
      have inner : ContentPieces _ _ _ := whole (Shape.every_second kept)
      have closed := Shape.endsInRaise_of_isKept (Bool.and_eq_true_iff.mp kept).1
      exact Expr.isReread_of_aggregate rfl (inner.extension (first.ancestor closed))
  | @ifExpr first second elsifs alternative _ _ _ _ _ condition consequence each other =>
      have tested : Expr.IsReread first := condition (Shape.every_first kept)
      have result : Expr.IsReread second := consequence (Shape.every_second kept)
      have parts := ElsifPart.every_shape (Shape.every_third kept)
      have else_ : (Expr.optionShape alternative).every Shape.isKept = true := Shape.every_fourth kept
      refine Expr.isReread_of_primary rfl rfl ?_
      rw [Expr.pieces_ifExpr, Expr.shape]
      refine .ifExpr tested.whole result.whole
        (fun part member => each part member (parts part member)) fun tree member => ?_
      cases member
      exact (other tree rfl else_).whole
  | @caseExpr _ alternatives _ _ some_ _ subject each =>
      have first := subject (Shape.every_first kept)
      have parts := CaseAlternative.every_shape (Shape.every_second kept)
      refine Expr.isReread_of_primary rfl rfl ?_
      rw [Expr.pieces, Expr.shape]
      exact .caseExpr first.whole some_ fun part member => each part member (parts part member)
  | @quantified quantifier _ _ _ _ _ loop body =>
      have front : LoopPieces _ _ := loop (Shape.every_second kept)
      have inner : ScopePieces _ _ := (body (Shape.every_third kept)).1
      refine Expr.isReread_of_primary rfl rfl ?_
      rw [Expr.pieces, Expr.shape]
      exact .quantified quantifier front inner
  -- Names.
  | direct formed direct =>
      have inner : DirectPieces _ _ := direct kept
      cases formed <;> exact inner.name
  | ident proper => exact DirectPieces.ident proper.1 proper.text
  | @character token found proper =>
      have text : TokenText .char token.text.toList := found ▸ proper
      exact DirectPieces.character text
  | dereference => exact DirectPieces.dereference
  | attributeWord known proper => exact DirectPieces.attributeWord known proper
  | @selected base selector _ _ proper front =>
      have first : NamePieces _ _ _ := front (Shape.every_first kept)
      have whole := first.selection (DirectPieces.ident proper.1 proper.text)
      simpa [TreeForm.IsReread, ExprForm.IsReread, Expr.isBareAttribute, Expr.pieces, Name.pieces,
        Expr.shape, Name.shape, Name.shape_selected proper.1] using whole
  | @selection base selector _ _ _ apart front behind =>
      have first : NamePieces _ _ _ := front (Shape.every_first kept)
      have second : DirectPieces _ _ := behind (Shape.every_second kept)
      have whole := first.selection second
      rw [Expr.shape_selection apart] at whole
      exact whole
  | @call callee suffix _ _ bare _ front arguments =>
      have first : NamePieces _ _ _ := front (Shape.every_first kept)
      obtain ⟨inner, pieces, second⟩ := arguments (Shape.every_second kept)
      rw [bare] at first
      rw [TreeForm.IsReread, ExprForm.IsReread, Expr.pieces, pieces, Expr.shape]
      exact first.call second
  | @attributeRef base designator _ _ _ front behind =>
      have first : NamePieces _ _ _ := front (Shape.every_first kept)
      have second : AttributePieces _ _ := behind (Shape.every_second kept)
      simpa [TreeForm.IsReread, ExprForm.IsReread, Expr.isBareAttribute, Expr.pieces, Expr.shape,
        CallSuffix.optionShape] using first.attribute second
  | @attributeCall base designator arguments _ _ _ _ front behind given =>
      have first : NamePieces _ _ _ := front (Shape.every_first kept)
      have second : AttributePieces _ _ := behind (Shape.every_second kept)
      obtain ⟨inner, pieces, third⟩ := given (Shape.every_third kept)
      simpa [TreeForm.IsReread, ExprForm.IsReread, Expr.isBareAttribute, Expr.pieces, pieces,
        Expr.shape, CallSuffix.optionShape] using first.attributeCall second third
  | @qualified mark operand _ _ _ front behind =>
      have first : NamePieces _ _ _ := front (Shape.every_first kept)
      have second : Expr.IsReread operand := behind (Shape.every_second kept)
      have whole := second.qualified first
      cases operand <;> exact whole
  | @namedAttribute token found proper =>
      have text : TokenText .identifier token.text.toList := found ▸ proper
      exact AttributePieces.identifier text
  | reservedAttribute known proper => exact AttributePieces.reserved known proper
  -- Parameters, choices and aggregates.
  | @range low high _ _ _ below above =>
      have first : Expr.IsReread low := below (Shape.every_first kept)
      have second : Expr.IsReread high := above (Shape.every_third kept)
      exact first.operand.range second.operand
  | rangeScope formed bounds =>
      have whole : RangePieces _ _ := bounds kept
      refine ⟨.range whole, ?_⟩
      cases formed
      exact whole.choice_of_range
  | exprScope _ whole =>
      have inner : Expr.IsReread _ := whole kept
      exact ⟨.expression inner.whole, inner.operand.choice⟩
  | value _ whole =>
      have inner : Expr.IsReread _ := whole kept
      exact .expression inner.whole
  | box => exact .box
  | choice _ scope => exact (scope kept).2
  | others => exact ChoicePieces.others
  | slice _ bounds =>
      have whole : RangePieces _ _ := bounds kept
      exact ⟨_, rfl, .slice whole⟩
  | parameters some_ _ parts =>
      have each := Association.every_shape kept
      exact ⟨_, rfl, .parameters some_ fun part member => parts part member (each part member)⟩
  | positional _ value =>
      have inner : ValuePieces _ _ := value (Shape.every_second kept)
      exact .positional inner
  | named proper _ value =>
      have inner : ValuePieces _ _ := value (Shape.every_second kept)
      exact .named proper.1 proper.text inner
  | otherParameters _ value =>
      have inner : ValuePieces _ _ := value (Shape.every_second kept)
      exact .others inner
  | nullRecord => exact ContentPieces.nullRecord
  | fields some_ _ parts =>
      have each := Association.every_shape kept
      exact .fields some_ (fun part member => parts part member (each part member)) _
  | @component value _ _ inner =>
      have inner : ValuePieces _ _ := inner (Shape.every_second kept)
      cases value with
      | box => exact .box
      | _ => exact .positional inner
  | @otherComponents value _ othersSpan _ inner =>
      have inner : ValuePieces _ _ := inner (Shape.every_second kept)
      have others : ∀ choice ∈ [Choice.others othersSpan], ChoicePieces choice.pieces choice.shape :=
        List.forall_mem_singleton.mpr ChoicePieces.others
      exact .chosen (List.cons_ne_nil _ _) others inner default
  | @chosen choices value _ span some_ _ apart _ each inner =>
      have inner : ValuePieces _ _ := inner (Shape.every_second kept)
      have list := Choice.every_shape (Shape.every_first kept)
      have whole := ComponentPieces.chosen some_
        (fun choice member => each choice member (list choice member)) inner span
      rw [Designator.ofChoices_of_ne apart] at whole
      exact whole
  -- Parts of conditional expressions.
  | elsif _ _ condition consequence =>
      have first : Expr.IsReread _ := condition (Shape.every_first kept)
      have second : Expr.IsReread _ := consequence (Shape.every_second kept)
      exact ⟨first.whole, second.whole⟩
  | @alternative choices value _ some_ _ _ each inner =>
      have inner : Expr.IsReread _ := inner (Shape.every_second kept)
      have list := Choice.every_shape (Shape.every_first kept)
      exact ExprPieces.alternative some_
        (fun choice member => each choice member (list choice member)) inner.whole
  | @loop token iteration reversed _ _ found proper _ source =>
      have inner : SourcePieces _ _ := source (Shape.every_third kept)
      have text : TokenText .identifier token.text.toList := found ▸ proper
      have whole : LoopPieces _ _ :=
        ReadBack.loop (show (⟨.identifier, token⟩ : Ident).form = .identifier from rfl) text iteration
          reversed inner
      simpa [TreeForm.IsReread, LoopSpec.pieces, LoopSpec.shape, reversePieces] using whole
  | constrained _ _ mark constraint =>
      have first : NamePieces _ _ _ := mark (Shape.every_first kept)
      have second : RangePieces _ _ := constraint (Shape.every_second kept)
      exact first.constrained second
  | iterated _ source => exact (source kept).1.source

/-- The tokens of a source are proper wherever they stand in the buffer. -/
theorem Setting.proper_of_tokenize {source file : String} {tokens : List Token} {options : Options}
    (tokenized : tokenize source file = .ok tokens) :
    (Parser.ofTokens tokens file options).setting.Proper := by
  obtain ⟨placed, closing, rfl, closed, each⟩ := Lexeme.tokenText_of_tokenize tokenized
  intro index more
  have token : (Parser.ofTokens (placed ++ [closing]) file options).setting.buffer.token index =
      placed[index]?.getD closing := Buffer.token_ofTokens_closed closed index
  rw [Buffer.kind, token] at more
  rw [token]
  cases found : placed[index]? with
  | none =>
      rw [found] at more
      exact absurd closed more
  | some here => exact each here (List.mem_of_getElem? found)

/-- What is printed for an accepted source is accepted under any options, as a tree of its shape. -/
theorem parse_sourceText_of_accepted {source file : String} {tokens : List Token} {options : Options}
    {expr : Expr} (tokenized : tokenize source file = .ok tokens)
    (accepted : parse tokens file options = .accepted expr)
    (kept : expr.shape.every Shape.isKept = true) (faithful : Piece.Faithful none expr.pieces) :
    ∃ printed, tokenize expr.sourceText file = .ok printed ∧
      ∀ again, ∃ reread, parse printed file again = .accepted reread ∧
        reread.shapeText = expr.shapeText := by
  obtain ⟨stop, reads, _⟩ := parse_accepted_iff.mp accepted
  have formed := formed_of_reads (Setting.proper_of_tokenize tokenized) reads
  have reread : Expr.IsReread expr := formed.isReread kept
  exact reread.whole.parse_sourceText faithful file

/-- An extension with an attribute, whose tick stands behind a name. -/
theorem parse_sourceText_of_accepted_extension :
    ∃ tokens expr, tokenize "(X with Y => A'First)" "" = .ok tokens ∧
      parse tokens "" .lenient = .accepted expr ∧ expr.shape.every Shape.isKept = true ∧
      Piece.Faithful none expr.pieces ∧
      ∃ printed, tokenize expr.sourceText "" = .ok printed ∧
        ∀ again, ∃ reread, parse printed "" again = .accepted reread ∧
          reread.shapeText = expr.shapeText := by
  have premises : ∃ tokens expr, tokenize "(X with Y => A'First)" "" = .ok tokens ∧
      parse tokens "" .lenient = .accepted expr ∧ expr.shape.every Shape.isKept = true ∧
      Piece.Faithful none expr.pieces :=
    ⟨[⟨.openParen, "(", .ofBytes 0 1 ""⟩, ⟨.identifier, "X", .ofBytes 1 1 ""⟩,
      ⟨.kwWith, "with", .ofBytes 3 4 ""⟩, ⟨.identifier, "Y", .ofBytes 8 1 ""⟩,
      ⟨.arrow, "=>", .ofBytes 10 2 ""⟩, ⟨.identifier, "A", .ofBytes 13 1 ""⟩,
      ⟨.tick, "'", .ofBytes 14 1 ""⟩, ⟨.identifier, "First", .ofBytes 15 5 ""⟩,
      ⟨.closeParen, ")", .ofBytes 20 1 ""⟩, .eof (.ofBytes 21 "")],
      _, by decide +kernel, by cbv, by decide +kernel, by decide +kernel⟩
  obtain ⟨tokens, expr, tokenized, accepted, kept, faithful⟩ := premises
  exact ⟨tokens, expr, tokenized, accepted, kept, faithful,
    parse_sourceText_of_accepted tokenized accepted kept faithful⟩

set_option maxRecDepth 4000 in
/-- An ancestor that ends in a raise expression without a message takes the rest of its aggregate
for one. -/
theorem sourceText_rejected :
    ∃ tokens expr, tokenize "((raise E) with null record)" "" = .ok tokens ∧
      parse tokens "" .lenient = .accepted expr ∧
      expr.sourceText = "(raise E with null record)" ∧
      ∃ printed error, tokenize expr.sourceText "" = .ok printed ∧
        parse printed "" .lenient = .rejected error := by
  refine ⟨[⟨.openParen, "(", .ofBytes 0 1 ""⟩, ⟨.openParen, "(", .ofBytes 1 1 ""⟩,
    ⟨.kwRaise, "raise", .ofBytes 2 5 ""⟩, ⟨.identifier, "E", .ofBytes 8 1 ""⟩,
    ⟨.closeParen, ")", .ofBytes 9 1 ""⟩, ⟨.kwWith, "with", .ofBytes 11 4 ""⟩,
    ⟨.kwNull, "null", .ofBytes 16 4 ""⟩, ⟨.kwRecord, "record", .ofBytes 21 6 ""⟩,
    ⟨.closeParen, ")", .ofBytes 27 1 ""⟩, .eof (.ofBytes 28 "")],
    _, by decide +kernel, by cbv, by decide +kernel,
    [⟨.openParen, "(", .ofBytes 0 1 ""⟩, ⟨.kwRaise, "raise", .ofBytes 1 5 ""⟩,
      ⟨.identifier, "E", .ofBytes 7 1 ""⟩, ⟨.kwWith, "with", .ofBytes 9 4 ""⟩,
      ⟨.kwNull, "null", .ofBytes 14 4 ""⟩, ⟨.kwRecord, "record", .ofBytes 19 6 ""⟩,
      ⟨.closeParen, ")", .ofBytes 25 1 ""⟩, .eof (.ofBytes 26 "")],
    ⟨.unexpectedBecause "record" "expected CloseParen", .ofBytes 19 ""⟩, by decide +kernel, by rfl⟩

end AdaExpressions
