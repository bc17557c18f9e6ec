import AdaExpressions.Expr.Outline
import AdaExpressions.Proofs.Printing.Pieces
import AdaExpressions.Proofs.Shape.ReadBack
import AdaExpressions.Proofs.Shape.Written

/-!
# The text of a shape tells trees apart

If the leaves of a tree have texts of tokens, its shape is legible: a leaf text is a word, and the
words and heads that the shape adds are plain. So the shape can be told from its text, and the bare
tree from the shape.

Results: `Expr.legible_shape`, `shapeText_eq_iff`.
-/

namespace AdaExpressions

open Lexeme (TokenText tokenText_of_tokenize)
open Shape (Legible IsWord isWord_of_plain isWord_of_tokenText)

/-! ### Leaves -/

/-- Some source has a token of the kind with that text. -/
def Kind.Yields (kind : Kind) (text : String) : Prop :=
  ∃ source file tokens, tokenize source file = .ok tokens ∧
    ∃ token ∈ tokens, token.kind = kind ∧ token.text = text

theorem Kind.Yields.tokenText {kind : Kind} {text : String} (yields : kind.Yields text)
    (some_ : kind ≠ .eof) : TokenText kind text.toList := by
  obtain ⟨source, file, tokens, tokenized, token, member, rfl, rfl⟩ := yields
  obtain ⟨placed, closing, rfl, closed, each⟩ := tokenText_of_tokenize tokenized
  rcases List.mem_append.mp member with member | last
  · exact each token member
  · rw [List.mem_singleton.mp last] at some_
    exact absurd closed some_

namespace Outline

/-- The kinds of token that a leaf can stand for, by what the leaf is called. How `null` is spelt is
of no account. -/
def leafKinds : String → List Kind
  | "Identifier" | "EnumIdentifier" => [.identifier]
  | "StringLiteral" => [.string]
  | "CharLiteral" => [.char]
  | "NumLiteral" => [.number]
  | "Attribute" => [.kwAccess, .kwDelta, .kwDigits, .kwMod, .kwRange]
  | _ => []

/-- Every leaf has the text of a token that it can stand for. -/
inductive Spelt : Outline → Prop
  | of {label detail : String} {span : Span} {parts : List Outline} :
      (leafKinds label ≠ [] → ∃ kind ∈ leafKinds label, kind.Yields detail) →
      (∀ part ∈ parts, Spelt part) →
      Spelt (.node label detail span parts)

section

variable {label detail : String} {span : Span} {children : List Outline}

theorem Spelt.parts (spelt : (node label detail span children).Spelt) :
    ∀ part ∈ children, part.Spelt := by
  cases spelt with
  | of leaf each => exact each

theorem Spelt.pair {first second : Outline}
    (spelt : (node label detail span [first, second]).Spelt) : first.Spelt ∧ second.Spelt := by
  obtain ⟨firstSpelt, more⟩ := List.forall_mem_cons.mp spelt.parts
  exact ⟨firstSpelt, List.forall_mem_singleton.mp more⟩

theorem Spelt.isWord (spelt : (node label detail span children).Spelt)
    (kinds : leafKinds label ≠ []) : IsWord detail.toList := by
  cases spelt with
  | of leaf each =>
      obtain ⟨kind, member, yields⟩ := leaf kinds
      have usual : ∀ kind ∈ leafKinds label, kind ≠ .eof ∧ kind ∉ Kind.delimiters := by
        unfold leafKinds
        split <;> decide
      obtain ⟨some_, open_⟩ := usual kind member
      exact isWord_of_tokenText (yields.tokenText some_) open_

end

end Outline

/-! ### Legible shapes of trees -/

namespace Shape

/-- The text is a letter and plain characters behind it. -/
def startsPlain (text : String) : Bool :=
  match text.toList with
  | [] => false
  | first :: rest => first.isAlpha && rest.all isPlain

theorem legible_text {text : String} (plain : startsPlain text = true) : Legible (.text text) := by
  unfold startsPlain at plain
  split at plain
  next => cases plain
  next first rest spelt =>
    obtain ⟨letter, plain⟩ := Bool.and_eq_true_iff.mp plain
    refine .text ?_
    rw [spelt]
    exact isWord_of_plain letter (List.all_eq_true.mp plain)

theorem legible_none : Shape.none.Legible :=
  legible_text (by decide +kernel)

section

variable {head : String} {first second third : Shape}

theorem legible_pair (letters : head.toList.all Char.isAlpha = true) (legible : first.Legible)
    (legible' : second.Legible) : (node head [first, second]).Legible :=
  .node letters (List.forall_mem_cons.mpr ⟨legible, List.forall_mem_singleton.mpr legible'⟩)

theorem legible_triple (letters : head.toList.all Char.isAlpha = true) (legible : first.Legible)
    (legible' : second.Legible) (legible'' : third.Legible) :
    (node head [first, second, third]).Legible := by
  refine .node letters ?_
  simp only [List.forall_mem_cons]
  exact ⟨legible, legible', legible'', nofun⟩

end

end Shape

theorem Op.legible_shape (op : Op) : op.shape.Legible := by
  cases op <;> exact Shape.legible_text (by decide +kernel)

theorem Quantifier.legible_spelling (quantifier : Quantifier) :
    Legible (.text quantifier.word.spelling) := by
  cases quantifier <;> exact Shape.legible_text (by decide +kernel)

theorem Iteration.legible_phrase (iteration : Iteration) (reversed : Bool) :
    Legible (.text (iteration.phrase reversed)) := by
  cases iteration <;> cases reversed <;> exact Shape.legible_text (by decide +kernel)

theorem Ident.legible_shape (ident : Ident) (spelt : ident.outline.Spelt) :
    ident.shape.Legible := by
  obtain ⟨form, token⟩ := ident
  have word : IsWord token.text.toList := by
    refine spelt.isWord ?_
    cases form <;> exact List.cons_ne_nil _ _
  cases form <;> exact .node (by simp) (List.forall_mem_singleton.mpr (.text word))

theorem Name.legible_shape (name : Name) (spelt : name.outline.Spelt) : name.shape.Legible := by
  induction name with
  | simple ident => exact ident.legible_shape spelt
  | selected base selector span ih =>
      obtain ⟨baseSpelt, selectorSpelt⟩ := spelt.pair
      exact Shape.legible_pair (by decide) (ih baseSpelt) (selector.legible_shape selectorSpelt)

mutual

/-- A tree with leaves of tokens has a legible shape: its parts do, and what the node adds is
plain. -/
theorem Expr.legible_shape : ∀ expr : Expr, expr.outline.Spelt → expr.shape.Legible
  | .unary op operand _, spelt => by
      have operandSpelt := List.forall_mem_singleton.mp spelt.parts
      exact Shape.legible_pair (by decide) op.legible_shape (operand.legible_shape operandSpelt)
  | .binary left op right _, spelt => by
      obtain ⟨leftSpelt, rightSpelt⟩ := spelt.pair
      exact Shape.legible_triple (by decide) (left.legible_shape leftSpelt) op.legible_shape
        (right.legible_shape rightSpelt)
  | .membership tested op choices _, spelt => by
      obtain ⟨testedSpelt, choicesSpelt⟩ := List.forall_mem_cons.mp spelt.parts
      have items : Legible (.list "" _) := .list rfl (Choice.legible_shapes choices choicesSpelt)
      exact Shape.legible_triple (by decide) (tested.legible_shape testedSpelt) op.legible_shape
        items
  | .aggregate ancestor content _, spelt => by
      obtain ⟨ancestorSpelt, contentSpelt⟩ := List.forall_mem_append.mp spelt.parts
      have content_ := content.legible_shape (List.forall_mem_singleton.mp contentSpelt)
      exact Shape.legible_pair (by decide) (Expr.legible_optionShape ancestor ancestorSpelt)
        content_
  | .call callee suffix _, spelt => by
      obtain ⟨calleeSpelt, suffixSpelt⟩ := spelt.pair
      exact Shape.legible_pair (by decide) (callee.legible_shape calleeSpelt)
        (suffix.legible_shape suffixSpelt)
  | .dereference _, _ => Shape.legible_text (by decide +kernel)
  | .box _, _ => Shape.legible_text (by decide +kernel)
  | .ifExpr condition consequence elsifs alternative _, spelt => by
      obtain ⟨conditionSpelt, consequenceSpelt, elsifsSpelt, alternativeSpelt⟩ := by
        simpa only [List.cons_append, List.forall_mem_cons, List.forall_mem_append]
          using spelt.parts
      have items : Legible (.list "" _) := .list rfl (ElsifPart.legible_shapes elsifs elsifsSpelt)
      refine .node (by decide) ?_
      simp only [List.forall_mem_cons]
      exact ⟨condition.legible_shape conditionSpelt, consequence.legible_shape consequenceSpelt,
        items, Expr.legible_optionShape alternative alternativeSpelt, nofun⟩
  | .caseExpr subject alternatives _, spelt => by
      obtain ⟨subjectSpelt, alternativesSpelt⟩ := List.forall_mem_cons.mp spelt.parts
      have items : Legible (.list "" _) :=
        .list rfl (CaseAlternative.legible_shapes alternatives alternativesSpelt)
      exact Shape.legible_pair (by decide) (subject.legible_shape subjectSpelt) items
  | .quantified quantifier loop body _, spelt => by
      obtain ⟨loopSpelt, bodySpelt⟩ := spelt.pair
      exact Shape.legible_triple (by decide) quantifier.legible_spelling
        (loop.legible_shape loopSpelt) (body.legible_shape bodySpelt)
  | .allocator subpool designated _, spelt => by
      obtain ⟨subpoolSpelt, designatedSpelt⟩ := List.forall_mem_append.mp spelt.parts
      have designated_ := designated.legible_shape (List.forall_mem_singleton.mp designatedSpelt)
      exact Shape.legible_pair (by decide) (Expr.legible_optionShape subpool subpoolSpelt)
        designated_
  | .qualified mark operand _, spelt => by
      obtain ⟨markSpelt, operandSpelt⟩ := spelt.pair
      exact Shape.legible_pair (by decide) (mark.legible_shape markSpelt)
        (operand.legible_shape operandSpelt)
  | .attributeRef base designator arguments _, spelt => by
      obtain ⟨baseSpelt, behindSpelt⟩ := List.forall_mem_cons.mp spelt.parts
      obtain ⟨designatorSpelt, argumentsSpelt⟩ := List.forall_mem_cons.mp behindSpelt
      exact Shape.legible_triple (by decide) (base.legible_shape baseSpelt)
        (designator.legible_shape designatorSpelt)
        (CallSuffix.legible_optionShape arguments argumentsSpelt)
  | .raise exception message _, spelt => by
      obtain ⟨exceptionSpelt, messageSpelt⟩ := List.forall_mem_append.mp spelt.parts
      exact Shape.legible_pair (by decide) (Expr.legible_optionShape exception exceptionSpelt)
        (Expr.legible_optionShape message messageSpelt)
  | .selection base selector _, spelt => by
      obtain ⟨baseSpelt, selectorSpelt⟩ := spelt.pair
      exact Shape.legible_pair (by decide) (base.legible_shape baseSpelt)
        (selector.legible_shape selectorSpelt)
  | .name path, spelt => path.legible_shape spelt
  | .literal form token, spelt => by
      cases form with
      | null => exact Shape.legible_text (by decide +kernel)
      | _ =>
          have word : IsWord token.text.toList := spelt.isWord (List.cons_ne_nil _ _)
          exact .node (by decide) (List.forall_mem_singleton.mpr (.text word))

theorem Expr.legible_optionShape : ∀ value : Option Expr,
    (∀ part ∈ Expr.optionOutlines value, part.Spelt) → (Expr.optionShape value).Legible
  | none, _ => Shape.legible_none
  | some expr, spelt => expr.legible_shape (List.forall_mem_singleton.mp spelt)

theorem Choice.legible_shapes : ∀ choices : List Choice,
    (∀ part ∈ Choice.outlines choices, part.Spelt) → ∀ shape ∈ Choice.shapes choices, shape.Legible
  | [], _ => nofun
  | .expr inner :: more, spelt => by
      obtain ⟨innerSpelt, moreSpelt⟩ := List.forall_mem_cons.mp spelt
      exact List.forall_mem_cons.mpr
        ⟨inner.legible_shape innerSpelt, Choice.legible_shapes more moreSpelt⟩
  | .others _ :: more, spelt => by
      obtain ⟨_, moreSpelt⟩ := List.forall_mem_cons.mp spelt
      exact List.forall_mem_cons.mpr
        ⟨Shape.legible_text (by decide +kernel), Choice.legible_shapes more moreSpelt⟩

theorem AggregateContent.legible_shape : ∀ content : AggregateContent,
    content.outline.Spelt → content.shape.Legible
  | .fields associations _, spelt =>
      .list (by decide) (Association.legible_shapes _ _ (by decide) associations spelt.parts)
  | .nullRecord _, _ => Shape.legible_text (by decide +kernel)

theorem Association.legible_shapes (head label : String)
    (letters : head.toList.all Char.isAlpha = true) : ∀ associations : List Association,
    (∀ part ∈ Association.outlines label associations, part.Spelt) →
      ∀ shape ∈ Association.shapes head associations, shape.Legible
  | [], _ => nofun
  | .mk designator value _ :: more, spelt => by
      obtain ⟨here, moreSpelt⟩ := List.forall_mem_cons.mp spelt
      obtain ⟨designatorSpelt, valueSpelt⟩ := List.forall_mem_append.mp here.parts
      have value_ := value.legible_shape (List.forall_mem_singleton.mp valueSpelt)
      refine List.forall_mem_cons.mpr ⟨?_,
        Association.legible_shapes head label letters more moreSpelt⟩
      exact Shape.legible_pair letters (Designator.legible_optionShape designator designatorSpelt)
        value_

theorem Designator.legible_optionShape : ∀ value : Option Designator,
    (∀ part ∈ Designator.optionOutlines value, part.Spelt) →
      (Designator.optionShape value).Legible
  | none, _ => Shape.legible_none
  | some (.name ident), spelt => by
      have here := List.forall_mem_singleton.mp spelt
      exact ident.legible_shape (List.forall_mem_singleton.mp here.parts)
  | some (.others _), _ => Shape.legible_text (by decide +kernel)
  | some (.choices list _), spelt => by
      have here := List.forall_mem_singleton.mp spelt
      exact .list (by decide) (Choice.legible_shapes list here.parts)

theorem CallSuffix.legible_shape : ∀ suffix : CallSuffix,
    suffix.outline.Spelt → suffix.shape.Legible
  | .range bounds, spelt => bounds.legible_shape (List.forall_mem_singleton.mp spelt.parts)
  | .parameters associations _, spelt =>
      .list (by decide) (Association.legible_shapes _ _ (by decide) associations spelt.parts)

theorem CallSuffix.legible_optionShape : ∀ value : Option CallSuffix,
    (∀ part ∈ CallSuffix.optionOutlines value, part.Spelt) →
      (CallSuffix.optionShape value).Legible
  | none, _ => Shape.legible_none
  | some suffix, spelt => suffix.legible_shape (List.forall_mem_singleton.mp spelt)

theorem ElsifPart.legible_shapes : ∀ parts : List ElsifPart,
    (∀ part ∈ ElsifPart.outlines parts, part.Spelt) →
      ∀ shape ∈ ElsifPart.shapes parts, shape.Legible
  | [], _ => nofun
  | .mk condition consequence _ :: more, spelt => by
      obtain ⟨here, moreSpelt⟩ := List.forall_mem_cons.mp spelt
      obtain ⟨conditionSpelt, consequenceSpelt⟩ := here.pair
      refine List.forall_mem_cons.mpr ⟨?_, ElsifPart.legible_shapes more moreSpelt⟩
      exact Shape.legible_pair (by decide) (condition.legible_shape conditionSpelt)
        (consequence.legible_shape consequenceSpelt)

theorem CaseAlternative.legible_shapes : ∀ alternatives : List CaseAlternative,
    (∀ part ∈ CaseAlternative.outlines alternatives, part.Spelt) →
      ∀ shape ∈ CaseAlternative.shapes alternatives, shape.Legible
  | [], _ => nofun
  | .mk choices value _ :: more, spelt => by
      obtain ⟨here, moreSpelt⟩ := List.forall_mem_cons.mp spelt
      obtain ⟨choicesSpelt, valueSpelt⟩ := List.forall_mem_append.mp here.parts
      have items : Legible (.list "" _) := .list rfl (Choice.legible_shapes choices choicesSpelt)
      have value_ := value.legible_shape (List.forall_mem_singleton.mp valueSpelt)
      refine List.forall_mem_cons.mpr ⟨?_, CaseAlternative.legible_shapes more moreSpelt⟩
      exact Shape.legible_pair (by decide) items value_

theorem LoopSpec.legible_shape : ∀ loop : LoopSpec, loop.outline.Spelt → loop.shape.Legible
  | .mk parameter iteration reversed source _, spelt => by
      obtain ⟨parameterSpelt, sourceSpelt⟩ := spelt.pair
      exact Shape.legible_triple (by decide) (parameter.legible_shape parameterSpelt)
        (iteration.legible_phrase reversed) (source.legible_shape sourceSpelt)

theorem IterationSource.legible_shape : ∀ source : IterationSource,
    source.outline.Spelt → source.shape.Legible
  | .constrained mark constraint _, spelt => by
      obtain ⟨markSpelt, constraintSpelt⟩ := spelt.pair
      exact Shape.legible_pair (by decide) (mark.legible_shape markSpelt)
        (constraint.legible_shape constraintSpelt)
  | .expr inner, spelt => inner.legible_shape spelt

end

/-- The shapes of trees are written out as one text if and only if the trees are the same but for
spans and the spelling of `null`. -/
theorem shapeText_eq_iff {expr other : Expr} (spelt : expr.outline.Spelt)
    (spelt' : other.outline.Spelt) :
    expr.shapeText = other.shapeText ↔ expr.bare = other.bare := by
  rw [← Expr.shape_eq_iff]
  constructor
  · exact Shape.eq_of_render (expr.legible_shape spelt) (other.legible_shape spelt')
  · intro same
    unfold Expr.shapeText
    rw [same]

/-- A string literal that looks like the end of one argument and the start of the next. -/
theorem shapeText_eq_iff_quoted :
    let tree (null : String) (start : Nat) : Expr := .ofBinary
      (.name (.simple ⟨.operatorSymbol, .string, "\"), Str(\"\"\"", .ofBytes start 11 "shell"⟩))
      .concat (.literal .null ⟨.kwNull, null, .ofBytes (start + 14) 4 "shell"⟩)
    (tree "null" 0).outline.Spelt ∧ (tree "NULL" 2).outline.Spelt ∧
      (tree "null" 0).shapeText = "BinOp(Str(\"), Str(\"\"\"), bin_and, Null)" ∧
      (tree "NULL" 2).shapeText = "BinOp(Str(\"), Str(\"\"\"), bin_and, Null)" ∧
      (tree "null" 0).bare = (tree "NULL" 2).bare := by
  intro tree
  have opened : "\"), Str(\"\"\"".toList = '\x22' :: "), Str(\"\"\"".toList := by decide
  have proper : TokenText .string "\"), Str(\"\"\"".toList := by
    rw [opened]
    exact .string (by decide)
  obtain ⟨_, _, _, tokenized⟩ := Kind.covers_iff.mpr proper
  have yields : Kind.Yields .string "\"), Str(\"\"\"" :=
    ⟨_, _, _, tokenized, _, List.mem_cons_self, rfl, rfl⟩
  have spelt (null : String) (start : Nat) : (tree null start).outline.Spelt := by
    refine .of (fun leaf => absurd rfl leaf) ?_
    simp only [List.forall_mem_cons]
    have none_ {P : Outline → Prop} : ∀ part ∈ [], P part := List.forall_mem_nil _
    refine ⟨.of (fun _ => ⟨.string, List.mem_cons_self, yields⟩) none_, ?_, none_⟩
    exact .of (fun leaf => absurd rfl leaf) none_
  have text (null : String) (start : Nat) :
      (tree null start).shapeText = "BinOp(Str(\"), Str(\"\"\"), bin_and, Null)" := rfl
  have same := (text "null" 0).trans (text "NULL" 2).symm
  exact ⟨spelt _ _, spelt _ _, text _ _, text _ _,
    (shapeText_eq_iff (spelt _ _) (spelt _ _)).mp same⟩

end AdaExpressions
