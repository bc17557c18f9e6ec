import AdaExpressions.Expr.Outline
import AdaExpressions.Proofs.Grammar.Soundness
import AdaExpressions.Proofs.Token.Lossless

/-!
# Spans nest

`LaidOut text outlines` says that outlines stand one after another in a text, each over some of its
tokens from the first to the last of which it spans, and with its children laid out in these tokens.
Each phrase of the grammar lays its tree out in its tokens. Parentheses and words around a node are
tokens that no node starts or ends with, or that only the node above does.

Results: `LaidOut.join` (a node from one part of a layout to another), `Derives.isLaidOut`,
`LaidOut.nested` (layouts in tokens that are in order nest), `spans_nest`.
-/

namespace AdaExpressions

open Grammar (associationsSpan)

namespace Outline

def span : Outline → Span
  | .node _ _ span _ => span

end Outline

/-- The outlines stand one after another in the text, each over tokens that it spans. -/
inductive LaidOut : List Token → List Outline → Prop
  | nil {text : List Token} : LaidOut text []
  | node {before inner after : List Token} {label detail : String} {children more : List Outline} :
      inner ≠ [] → LaidOut inner children → LaidOut after more →
      LaidOut (before ++ (inner ++ after)) (.node label detail (textSpan inner) children :: more)

/-! ### Putting layouts together -/

theorem textSpan_start {text : List Token} {first : Token} (head : text.head? = some first) :
    (textSpan text).start = first.span.start := by
  cases text with
  | nil => cases head
  | cons token more => cases head; rfl

theorem textSpan_stop {text : List Token} {last : Token} (tail : text.getLast? = some last) :
    (textSpan text).stop = last.span.stop := by
  cases text with
  | nil => cases tail
  | cons token more =>
      rw [List.getLast?_eq_some_getLast (List.cons_ne_nil token more)] at tail
      rw [← Option.some.inj tail]
      rfl

/-- A text spans from where its first part starts to where its last part stops. -/
theorem textSpan_append {first middle last : List Token} (begins : first ≠ []) (ends : last ≠ []) :
    textSpan (first ++ (middle ++ last)) = (textSpan first).join (textSpan last) := by
  obtain ⟨head, more, rfl⟩ := List.exists_cons_of_ne_nil begins
  have tail := List.getLast?_eq_some_getLast ends
  have whole : (head :: more ++ (middle ++ last)).getLast? = some (last.getLast ends) := by
    rw [List.getLast?_append, List.getLast?_append, tail]
    rfl
  have stop : (textSpan (head :: more ++ (middle ++ last))).stop = (textSpan last).stop :=
    (textSpan_stop whole).trans (textSpan_stop tail).symm
  exact congrArg (Span.mk head.span.start) stop

namespace LaidOut

variable {text first second : List Token} {outlines parts others children : List Outline}
  {label detail : String}

theorem padLeft (before : List Token) (laid : LaidOut text outlines) :
    LaidOut (before ++ text) outlines := by
  cases laid with
  | nil => exact .nil
  | node some_ inner after =>
      rw [← List.append_assoc]
      exact .node some_ inner after

theorem append (laid : LaidOut first outlines) (behind : LaidOut second others) :
    LaidOut (first ++ second) (outlines ++ others) := by
  induction laid with
  | nil => exact behind.padLeft _
  | node some_ inner _ _ ih =>
      rw [List.append_assoc, List.append_assoc]
      exact .node some_ inner ih

theorem padRight (laid : LaidOut text outlines) (after : List Token) :
    LaidOut (text ++ after) outlines := by
  have whole := laid.append (.nil : LaidOut after [])
  rwa [List.append_nil] at whole

theorem sublist (laid : LaidOut text parts) (kept : children.Sublist parts) :
    LaidOut text children := by
  induction laid generalizing children with
  | nil => exact List.sublist_nil.mp kept ▸ .nil
  | @node before inner after _ _ _ _ some_ inside _ _ ih =>
      cases kept with
      | cons _ kept => exact ((ih kept).padLeft inner).padLeft before
      | cons_cons _ kept => exact .node some_ inside (ih kept)

/-- A node over all of its text. -/
theorem whole (some_ : text ≠ []) (laid : LaidOut text children) :
    LaidOut text [.node label detail (textSpan text) children] := by
  have here : LaidOut ([] ++ (text ++ [])) [.node label detail (textSpan text) children] :=
    .node some_ laid .nil
  rwa [List.nil_append, List.append_nil] at here

theorem token (token : Token) : LaidOut [token] [.leaf label detail token.span] :=
  whole (List.cons_ne_nil token []) .nil

/-- What a text with parts in it looks like without the tokens before the first part and behind the
last one. -/
theorem exists_inner {head last : Outline} (laid : LaidOut text parts)
    (begins : parts.head? = some head) (ends : parts.getLast? = some last) :
    ∃ before inner after, text = before ++ (inner ++ after) ∧ inner ≠ [] ∧
      textSpan inner = head.span.join last.span ∧ LaidOut inner parts := by
  induction laid generalizing head with
  | nil => cases begins
  | @node before inner after label detail children more some_ inside behind _ ih =>
      obtain rfl := Option.some.inj begins
      cases more with
      | nil =>
          obtain rfl := Option.some.inj ends
          exact ⟨before, inner, after, rfl, some_, rfl, whole some_ inside⟩
      | cons next rest =>
          have ends : (next :: rest).getLast? = some last := by
            rwa [List.getLast?_cons_cons] at ends
          obtain ⟨between, final, left, rfl, open_, span, laid⟩ := ih rfl ends
          refine ⟨before, inner ++ (between ++ final), left, ?_, ?_, ?_, ?_⟩
          · simp only [List.append_assoc]
          · exact List.append_ne_nil_of_left_ne_nil some_ _
          · rw [textSpan_append some_ open_, span]
            rfl
          · exact @LaidOut.node [] inner _ label detail _ _ some_ inside (laid.padLeft between)

/-- A node that spans from the first part of a layout to the last one. Its children are some of the
parts. -/
theorem join {head last : Outline} {span : Span} (laid : LaidOut text parts)
    (begins : parts.head? = some head) (ends : parts.getLast? = some last)
    (spans : span = head.span.join last.span) (kept : children.Sublist parts) :
    LaidOut text [.node label detail span children] := by
  obtain ⟨before, inner, after, rfl, some_, same, laid⟩ := laid.exists_inner begins ends
  rw [spans, ← same]
  exact .node some_ (laid.sublist kept) .nil

/-- A node over two parts, whatever stands between them. -/
theorem pair {left right : Outline} {span : Span} (laid : LaidOut first [left])
    (middle : List Token) (behind : LaidOut second [right])
    (spans : span = left.span.join right.span) :
    LaidOut (first ++ (middle ++ second)) [.node label detail span [left, right]] :=
  (laid.append (behind.padLeft middle)).join rfl rfl spans (.refl _)

/-- A node that a word opens: it starts with the word and ends with the last part behind it. -/
theorem opened {word : Token} {last : Outline} {span : Span} (laid : LaidOut text parts)
    (ends : parts.getLast? = some last) (spans : span = word.span.join last.span) :
    LaidOut (word :: text) [.node label detail span parts] := by
  have word_ : LaidOut [word] [.leaf "" "" word.span] := .token word
  have ends : (Outline.leaf "" "" word.span :: parts).getLast? = some last := by
    rw [List.getLast?_cons, ends]
    rfl
  exact (word_.append laid).join rfl ends spans (.cons _ (.refl _))

/-- A node that a token closes: it starts with the first part and ends with the token. -/
theorem closed {closing : Token} {head : Outline} {span : Span} (laid : LaidOut text parts)
    (begins : parts.head? = some head) (spans : span = head.span.join closing.span) :
    LaidOut (text ++ [closing]) [.node label detail span parts] := by
  have closing_ : LaidOut [closing] [.leaf "" "" closing.span] := .token closing
  have begins : (parts ++ [Outline.leaf "" "" closing.span]).head? = some head := by
    rw [List.head?_append, begins]
    rfl
  exact (laid.append closing_).join begins List.getLast?_concat spans (List.sublist_append_left _ _)

end LaidOut

/-! ### Outlines and spans of nodes -/

@[simp] theorem Expr.outline_span (expr : Expr) : expr.outline.span = expr.span := by
  cases expr with
  | name path => cases path <;> rfl
  | _ => rfl

@[simp] theorem Choice.outline_span (choice : Choice) : choice.outline.span = choice.span := by
  cases choice with
  | expr inner => exact inner.outline_span
  | others span => rfl

@[simp] theorem Association.outline_span (label : String) (association : Association) :
    (association.outline label).span = association.span := by
  cases association
  rfl

@[simp] theorem Designator.outline_span (designator : Designator) :
    designator.outline.span = designator.span := by
  cases designator <;> rfl

@[simp] theorem IterationSource.outline_span (source : IterationSource) :
    source.outline.span = source.span := by
  cases source with
  | constrained => rfl
  | expr inner => exact inner.outline_span

@[simp] theorem LoopSpec.outline_span (loop : LoopSpec) : loop.outline.span = loop.span := by
  cases loop
  rfl

@[simp] theorem Ident.outline_span (ident : Ident) : ident.outline.span = ident.token.span := rfl

theorem Choice.outlines_eq (choices : List Choice) :
    Choice.outlines choices = choices.map Choice.outline := by
  induction choices with
  | nil => rfl
  | cons choice more ih => rw [Choice.outlines, ih, List.map_cons]

theorem Association.outlines_eq (label : String) (parts : List Association) :
    Association.outlines label parts = parts.map (Association.outline label) := by
  induction parts with
  | nil => rfl
  | cons part more ih => rw [Association.outlines, ih, List.map_cons]

theorem ElsifPart.outlines_eq (parts : List ElsifPart) :
    ElsifPart.outlines parts = parts.map ElsifPart.outline := by
  induction parts with
  | nil => rfl
  | cons part more ih => rw [ElsifPart.outlines, ih, List.map_cons]

theorem CaseAlternative.outlines_eq (parts : List CaseAlternative) :
    CaseAlternative.outlines parts = parts.map CaseAlternative.outline := by
  induction parts with
  | nil => rfl
  | cons part more ih => rw [CaseAlternative.outlines, ih, List.map_cons]

/-! ### The layout of a phrase -/

/-- The tree of a phrase is laid out in its tokens. A step is laid out behind any name that it
extends. -/
def Phrase.IsLaidOut : (phrase : Phrase) → List Token → phrase.Node → Prop
  | .expr _, text, node => LaidOut text [node.outline]
  | .step, text, node => ∀ before base, LaidOut before [base.outline] →
      LaidOut (before ++ text) [(node.extend base).outline]
  | .staticPart, text, node => LaidOut text [node.outline]
  | .callSuffix, text, node => LaidOut text [node.outline]
  | .parameters, text, nodes =>
      nodes ≠ [] ∧ LaidOut text (nodes.map (Association.outline "ParamAssoc"))
  | .parameter, text, node => LaidOut text [node.outline "ParamAssoc"]
  | .parameterDesignator, text, node => LaidOut text [node.outline]
  | .aggregateContent, text, node => LaidOut text [node.outline]
  | .associations, text, nodes =>
      nodes ≠ [] ∧ LaidOut text (nodes.map (Association.outline "AggregateAssoc"))
  | .association, text, node => LaidOut text [node.outline "AggregateAssoc"]
  | .choiceList, text, nodes =>
      text ≠ [] ∧ nodes ≠ [] ∧ LaidOut text (nodes.map Choice.outline)
  | .choice, text, node => text ≠ [] ∧ LaidOut text [node.outline]
  | .consequence, text, (condition, value) => LaidOut text [condition.outline, value.outline]
  | .elsifParts, text, nodes => LaidOut text (nodes.map ElsifPart.outline)
  | .elsePart, text, node => LaidOut text (Expr.optionOutlines node)
  | .caseAlternatives, text, nodes => LaidOut text (nodes.map CaseAlternative.outline)
  | .caseAlternative, text, node => LaidOut text [node.outline]
  | .loopSpec, text, node => LaidOut text [node.outline]
  | .iterationSource, text, node => LaidOut text [node.outline]

namespace LaidOut

variable {text words more before : List Token}

theorem ne_nil {first : Outline} {rest : List Outline} (laid : LaidOut text (first :: rest)) :
    text ≠ [] := by
  cases laid with
  | node some_ inner behind => simp [some_]

/-- A node that only wraps another one. -/
theorem around {inner : Outline} {span : Span} {label detail : String} (laid : LaidOut text [inner])
    (spans : span = inner.span) : LaidOut text [.node label detail span [inner]] :=
  laid.join rfl rfl spans (.refl _)

theorem binary {left right : Expr} (op : Op) (laid : LaidOut text [left.outline])
    (behind : LaidOut more [right.outline]) :
    LaidOut (text ++ words ++ more) [(Expr.ofBinary left op right).outline] := by
  rw [List.append_assoc]
  exact laid.pair words behind (by simp)

theorem unary {operand : Expr} {op : Op} (spelt : words.map Token.kind = op.words)
    (laid : LaidOut text [operand.outline]) :
    LaidOut (words ++ text) [(Expr.ofUnary op (textSpan words) operand).outline] := by
  have some_ : words ≠ [] := by
    rintro rfl
    exact op.words_ne_nil spelt.symm
  have words_ : LaidOut words [.node "" "" (textSpan words) []] := .whole some_ .nil
  have spans : (Expr.ofUnary op (textSpan words) operand).span
      = (Outline.node "" "" (textSpan words) []).span.join operand.outline.span := by
    rw [Expr.outline_span]
    rfl
  exact (words_.append laid).join rfl rfl spans (.cons _ (.refl _))

/-- A membership test ends with the last of its choices. -/
theorem membership {tested : Expr} {choices : List Choice} (op : Op) (other : Span)
    (some_ : choices ≠ []) (laid : LaidOut text [tested.outline])
    (behind : LaidOut more (choices.map Choice.outline)) :
    LaidOut (text ++ words ++ more) [(Expr.membership tested op choices
      (tested.span.join ((choices.getLast?.map Choice.span).getD other))).outline] := by
  have last := List.getLast?_eq_some_getLast some_
  have parts : (tested.outline :: choices.map Choice.outline).getLast?
      = some (choices.getLast some_).outline := by
    rw [List.getLast?_cons, List.getLast?_map, last]
    rfl
  have span : (choices.getLast?.map Choice.span).getD other
      = (choices.getLast some_).outline.span := by
    rw [last, Choice.outline_span]
    rfl
  rw [List.append_assoc, Expr.outline, Choice.outlines_eq, span, ← tested.outline_span]
  exact (laid.append (behind.padLeft words)).join rfl parts rfl (.refl _)

theorem select {base selector : Expr} (dot : Token) (laid : LaidOut before [base.outline])
    (behind : LaidOut text [selector.outline]) :
    LaidOut (before ++ dot :: text) [(base.select selector).outline] := by
  unfold Expr.select
  split
  next path ident =>
    split
    next => exact laid.pair [dot] behind (by simp)
    next =>
      have spans : (path.select ident).span
          = (Expr.name path).outline.span.join (Expr.name (.simple ident)).outline.span := by
        rw [Expr.outline_span, Expr.outline_span]
        rfl
      exact laid.pair [dot] behind spans
  next => exact laid.pair [dot] behind (by simp)

/-- A list of associations as one node. -/
theorem associations {parts : List Association} {label detail inner : String} (some_ : parts ≠ [])
    (laid : LaidOut text (parts.map (Association.outline inner))) :
    LaidOut text
      [.node label detail (associationsSpan parts) (Association.outlines inner parts)] := by
  obtain ⟨first, rest, rfl⟩ := List.exists_cons_of_ne_nil some_
  have last : ((first :: rest).map (Association.outline inner)).getLast?
      = some (((first :: rest).getLast some_).outline inner) := by
    rw [List.getLast?_map, List.getLast?_eq_some_getLast some_]
    rfl
  have spans : associationsSpan (first :: rest)
      = (first.outline inner).span.join (((first :: rest).getLast some_).outline inner).span := by
    rw [Association.outline_span, Association.outline_span]
    rfl
  rw [Association.outlines_eq]
  exact laid.join rfl last spans (.refl _)

/-- The choices before the arrow of an association as one node. -/
theorem choices {list : List Choice} (some_ : text ≠ [])
    (laid : LaidOut text (list.map Choice.outline)) :
    LaidOut text [(Designator.ofChoices list (textSpan text)).outline] := by
  unfold Designator.ofChoices
  split
  next span => exact laid.join rfl rfl rfl (List.nil_sublist _)
  next =>
    rw [Designator.outline, Choice.outlines_eq]
    exact .whole some_ laid

/-- A name and a suffix that a closing parenthesis ends. -/
theorem suffixed {base : Expr} {closing : Token} {parts : List Outline} {label : String}
    (laid : LaidOut before [base.outline]) (behind : LaidOut text parts) :
    LaidOut (before ++ (text ++ [closing]))
      [.node label "" (base.span.join closing.span) (base.outline :: parts)] := by
  rw [← List.append_assoc, ← base.outline_span]
  exact (laid.append behind).closed rfl rfl

/-- A name and a suffix that ends with the last token of its one part. -/
theorem ending {base operand : Expr} {tick : Token} {label : String}
    (laid : LaidOut before [base.outline]) (behind : LaidOut text [operand.outline])
    (same : operand.span.stop = (lastSpan text).stop) :
    LaidOut (before ++ tick :: text)
      [.node label "" (base.span.join (lastSpan text)) [base.outline, operand.outline]] := by
  refine laid.pair [tick] behind ?_
  rw [Expr.outline_span, Expr.outline_span]
  exact congrArg (Span.mk base.span.start) same.symm

end LaidOut

theorem Derives.stop_attribute {text : List Token} {expr : Expr}
    (derives : Derives (.expr .attribute) text expr) : expr.span.stop = (lastSpan text).stop := by
  cases derives with
  | reservedAttribute word => cases word; rfl
  | namedAttribute name => cases name; rfl

theorem Derives.stop_aggregate {text : List Token} {expr : Expr}
    (derives : Derives (.expr .aggregate) text expr) : expr.span.stop = (lastSpan text).stop := by
  have whole {text : List Token} (some_ : text ≠ []) :
      (textSpan text).stop = (lastSpan text).stop := by
    have last := List.getLast?_eq_some_getLast some_
    rw [textSpan_stop last, lastSpan, last]
    rfl
  cases derives with
  | plainAggregate => exact whole (List.cons_ne_nil _ _)
  | extension => exact whole (List.cons_ne_nil _ _)

/-- Every phrase lays its tree out in its tokens. -/
theorem Derives.isLaidOut {phrase : Phrase} {text : List Token} {node : phrase.Node}
    (derives : Derives phrase text node) : phrase.IsLaidOut text node := by
  induction derives with
  | relation _ ih | simpleExpr _ ih | unopTerm _ ih | term _ ih | factor _ ih | primary _ ih =>
      exact ih
  | name _ ih | allocator _ ih | conditional _ ih | raise _ ih | aggregate _ ih => exact ih
  | directName _ ih | simpleName _ ih | attributeName _ ih | reservedAttribute _ ih
  | namedAttribute _ ih | staticName _ ih => exact ih
  | value _ ih | range _ ih | expression _ ih => exact ih
  | ifConditional _ ih | caseConditional _ ih | quantifiedConditional _ ih | iterated _ ih =>
      exact ih
  | number | null | stringLiteral | characterLiteral | dereference | identifier | attributeWord
  | enumerationLiteral | staticIdentifier | staticSymbol | box | parameterOthers => exact .token _
  | logical _ _ _ ih ihRight | comparison _ _ _ ih ihRight | adding _ _ _ ih ihRight
  | multiplying _ _ _ ih ihRight | power _ _ _ ih ihRight => exact ih.binary _ ihRight
  | signed spells _ ih | highestUnary spells _ ih => exact ih.unary spells.2
  | membership _ _ _ ih ihChoices => exact ih.membership _ _ ihChoices.2.1 ihChoices.2.2
  | parenthesized _ _ _ ih | parenthesizedConditional _ _ _ ih =>
      exact (ih.padLeft [_]).padRight [_]
  -- Names.
  | extended _ _ ih ihStep => exact ihStep _ _ ih
  | callStep _ _ _ ih => exact fun before base laid => laid.suffixed (ih.padLeft [_])
  | selection _ _ ih => exact fun before base laid => laid.select _ ih
  | attributeStep _ designator ih =>
      exact fun before base laid => laid.ending ih designator.stop_attribute
  | attributeCall _ _ _ _ _ ih ihArguments =>
      exact fun before base laid =>
        laid.suffixed ((ih.padLeft [_]).append (ihArguments.padLeft [_]))
  | qualification _ _ _ _ ih =>
      exact fun before base laid => laid.suffixed ((ih.padLeft [_]).padLeft [_])
  | aggregateQualification _ aggregate ih =>
      exact fun before base laid => laid.ending ih aggregate.stop_aggregate
  | @staticSelection _ _ dot base ident _ _ _ ih ihPart =>
      have spans : (base.select ident).span =
          (Expr.name base).outline.span.join ident.outline.span := by
        rw [Expr.outline_span]
        rfl
      exact ih.pair [dot] ihPart spans
  -- Parameters.
  | slice _ ih => exact ih.around (by simp)
  | parameters _ ih | fields _ ih => exact .associations ih.1 ih.2
  | parameter _ ih | association _ ih => exact ⟨List.cons_ne_nil _ _, ih⟩
  | moreParameters _ _ _ ih ihPart | moreAssociations _ _ _ ih ihPart =>
      refine ⟨List.append_ne_nil_of_right_ne_nil _ (List.cons_ne_nil _ _), ?_⟩
      rw [List.map_append]
      exact ih.2.append (ihPart.padLeft [_])
  | positional _ ih | component _ ih => exact ih.around (by simp)
  | named _ _ _ ih ihValue => exact ih.pair [_] ihValue (by simp)
  | parameterName _ ih => exact ih.around rfl
  -- Choices and aggregates.
  | discreteRange _ _ _ ih ihHigh => exact ih.pair [_] ihHigh (by simp)
  | exprChoice _ ih => exact ⟨ih.ne_nil, ih⟩
  | others => exact ⟨List.cons_ne_nil _ _, .token _⟩
  | choice _ ih => exact ⟨ih.1, List.cons_ne_nil _ _, ih.2⟩
  | moreChoices _ _ _ ih ihChoice =>
      refine ⟨List.append_ne_nil_of_left_ne_nil ih.1 _,
        List.append_ne_nil_of_right_ne_nil _ (List.cons_ne_nil _ _), ?_⟩
      rw [List.map_append]
      exact ih.2.2.append (ihChoice.2.padLeft [_])
  | plainAggregate _ _ _ ih => exact .whole (List.cons_ne_nil _ _) ((ih.padLeft [_]).padRight [_])
  | extension _ _ _ _ _ ih ihContent =>
      exact .whole (List.cons_ne_nil _ _)
        (((ih.padLeft [_]).append (ihContent.padLeft [_])).padRight [_])
  | nullRecord => exact .whole (List.cons_ne_nil _ _) .nil
  | chosen _ _ _ ih ihValue => exact (LaidOut.choices ih.1 ih.2.2).pair [_] ihValue (by simp)
  -- Conditional expressions.
  | consequence _ _ _ ih ihValue => exact ih.append (ihValue.padLeft [_])
  | noElsif | noElse => exact .nil
  | elsif _ _ _ ih ihPart =>
      show LaidOut _ (List.map _ _)
      rw [List.map_append]
      exact ih.append (ihPart.opened rfl (by simp))
  | «else» _ _ ih => exact ih.padLeft [_]
  | ifExpr _ _ _ _ ih ihElsifs ihElse =>
      refine .whole (List.cons_ne_nil _ _) ?_
      rw [ElsifPart.outlines_eq]
      exact ((ih.padLeft [_]).append ihElsifs).append ihElse
  | caseExpr _ _ _ _ ih ihAlternatives =>
      refine .whole (List.cons_ne_nil _ _) ?_
      rw [CaseAlternative.outlines_eq]
      exact (ih.padLeft [_]).append (ihAlternatives.padLeft [_])
  | caseAlternatives _ ih => exact ih
  | moreAlternatives _ _ _ ih ihPart =>
      show LaidOut _ (List.map _ _)
      rw [List.map_append]
      exact ih.append (ihPart.padLeft [_])
  | @caseAlternative word arrow text more choices value _ _ _ _ ih ihValue =>
      have parts := ih.2.2.append (ihValue.padLeft [arrow])
      rw [← Choice.outlines_eq] at parts
      exact parts.opened List.getLast?_concat (by simp)
  | quantified _ _ _ _ _ ih ihBody =>
      exact ((ih.padLeft [_]).append (ihBody.padLeft [_])).opened rfl (by simp)
  | @loopSpec token word _ iteration source _ _ _ ih =>
      have parameter : LaidOut [token] [(Ident.mk .identifier token).outline] := .token token
      exact parameter.pair [word] ih (by simp)
  | @reversedLoopSpec token word reverse _ iteration source _ _ _ _ ih =>
      have parameter : LaidOut [token] [(Ident.mk .identifier token).outline] := .token token
      exact parameter.pair [word, reverse] ih (by simp)
  | constrained _ _ _ ih ihConstraint => exact ih.pair [_] ihConstraint (by simp)
  -- Allocators and raise expressions.
  | new _ _ ih => exact ih.opened rfl (by simp)
  | newIn _ _ _ _ _ ih ihDesignated =>
      exact ((ih.padLeft [_]).append (ihDesignated.padLeft [_])).opened rfl (by simp)
  | reraise => exact .whole (List.cons_ne_nil _ _) .nil
  | raiseName _ _ ih => exact .whole (List.cons_ne_nil _ _) (ih.padLeft [_])
  | raiseMessage _ _ _ _ ih ihMessage =>
      exact .whole (List.cons_ne_nil _ _) ((ih.padLeft [_]).append (ihMessage.padLeft [_]))

/-! ### Nested spans -/

/-- The spans of an outline nest: each node starts where some token starts, ends behind that where
some token ends, and holds its children, which stand in order and apart from each other. -/
inductive Outline.Nested (tokens : List Token) : Outline → Prop
  | node {label detail : String} {span : Span} {children : List Outline} :
      (∃ first ∈ tokens, span.start = first.span.start) →
      (∃ last ∈ tokens, span.stop = last.span.stop) →
      span.start.offset < span.stop.offset →
      (∀ child ∈ children, span.start.offset ≤ child.span.start.offset ∧
        child.span.stop.offset ≤ span.stop.offset) →
      children.Pairwise (fun earlier later => earlier.span.stop.offset ≤ later.span.start.offset) →
      (∀ child ∈ children, Nested tokens child) →
      Nested tokens (.node label detail span children)

/-- The tokens stand one after another and none is empty. -/
structure InOrder (text : List Token) : Prop where
  nonempty : ∀ token ∈ text, token.span.start.offset < token.span.stop.offset
  apart : text.Pairwise fun earlier later => earlier.span.stop.offset ≤ later.span.start.offset

namespace InOrder

variable {text part : List Token} {first last : Token}

theorem sublist (order : InOrder text) (kept : part.Sublist text) : InOrder part :=
  ⟨fun token member => order.nonempty token (kept.subset member), order.apart.sublist kept⟩

theorem start_le (order : InOrder text) (head : text.head? = some first) :
    ∀ token ∈ text, first.span.start.offset ≤ token.span.start.offset := by
  intro token member
  cases text with
  | nil => cases head
  | cons token' more =>
      obtain rfl := Option.some.inj head
      rcases List.mem_cons.mp member with rfl | later
      · exact UInt32.le_refl _
      · have here := order.nonempty _ List.mem_cons_self
        have behind := (List.pairwise_cons.mp order.apart).1 token later
        exact UInt32.le_trans (UInt32.le_of_lt here) behind

theorem le_stop (order : InOrder text) (tail : text.getLast? = some last) :
    ∀ token ∈ text, token.span.stop.offset ≤ last.span.stop.offset := by
  obtain ⟨before, rfl⟩ := List.getLast?_eq_some_iff.mp tail
  intro token member
  rcases List.mem_append.mp member with earlier | here
  · have ahead := (List.pairwise_append.mp order.apart).2.2 token earlier last List.mem_cons_self
    have some_ := order.nonempty last (List.mem_append_right _ List.mem_cons_self)
    exact UInt32.le_trans ahead (UInt32.le_of_lt some_)
  · obtain rfl := List.mem_singleton.mp here
    exact UInt32.le_refl _

end InOrder

namespace LaidOut

variable {text : List Token} {outlines : List Outline}

/-- Every outline starts and ends with a token of the text that it is laid out in. -/
theorem exists_ends (laid : LaidOut text outlines) : ∀ outline ∈ outlines,
    ∃ first ∈ text, ∃ last ∈ text, outline.span.start = first.span.start ∧
      outline.span.stop = last.span.stop := by
  induction laid with
  | nil => exact nofun
  | @node before inner after _ _ _ _ some_ _ _ _ ih =>
      refine List.forall_mem_cons.mpr ⟨?_, fun outline member => ?_⟩
      · refine ⟨inner.head some_, ?_, inner.getLast some_, ?_, ?_, ?_⟩
        · simp
        · simp
        · exact textSpan_start (List.head?_eq_some_head some_)
        · exact textSpan_stop (List.getLast?_eq_some_getLast some_)
      · obtain ⟨first, firstIn, last, lastIn, ends⟩ := ih outline member
        exact ⟨first, by simp [firstIn], last, by simp [lastIn], ends⟩

/-- Outlines that are laid out in tokens in order are in order. -/
theorem pairwise (laid : LaidOut text outlines) (order : InOrder text) :
    outlines.Pairwise fun earlier later => earlier.span.stop.offset ≤ later.span.start.offset := by
  induction laid with
  | nil => exact .nil
  | @node before inner after _ _ _ more some_ _ behind _ ih =>
      have rest := order.sublist (List.sublist_append_right before _)
      refine .cons (fun later member => ?_) (ih (rest.sublist (List.sublist_append_right inner _)))
      obtain ⟨first, firstIn, _, _, start, _⟩ := behind.exists_ends later member
      have last := inner.getLast_mem some_
      have stop := textSpan_stop (List.getLast?_eq_some_getLast some_)
      rw [Outline.span, stop, start]
      exact (List.pairwise_append.mp rest.apart).2.2 _ last first firstIn

theorem nested {tokens : List Token} (laid : LaidOut text outlines) (order : InOrder text)
    (among : ∀ token ∈ text, token ∈ tokens) : ∀ outline ∈ outlines, outline.Nested tokens := by
  induction laid with
  | nil => exact nofun
  | @node before inner after _ _ children _ some_ inside _ ihInside ihBehind =>
      have rest := order.sublist (List.sublist_append_right before _)
      have here := rest.sublist (List.sublist_append_left inner _)
      have behind := rest.sublist (List.sublist_append_right inner _)
      have amongInner : ∀ token ∈ inner, token ∈ tokens := fun token member =>
        among token (by simp [member])
      have head := List.head?_eq_some_head some_
      have tail := List.getLast?_eq_some_getLast some_
      have start := textSpan_start head
      have stop := textSpan_stop tail
      have headIn := inner.head_mem some_
      have lastIn := inner.getLast_mem some_
      refine List.forall_mem_cons.mpr ⟨?_, ihBehind behind fun token member =>
        among token (by simp [member])⟩
      refine .node ⟨_, amongInner _ headIn, start⟩ ⟨_, amongInner _ lastIn, stop⟩ ?_
        (fun child member => ?_) (inside.pairwise here) (ihInside here amongInner)
      · rw [start, stop]
        exact UInt32.lt_of_le_of_lt (here.start_le head _ lastIn) (here.nonempty _ lastIn)
      · obtain ⟨first, firstIn, last, lastIn, starts, stops⟩ := inside.exists_ends child member
        rw [start, stop, starts, stops]
        exact ⟨here.start_le head first firstIn, here.le_stop tail last lastIn⟩

end LaidOut

/-- The readable tokens of a source are in order. -/
theorem inOrder_of_tokenize {source file : String} {tokens : List Token}
    (tokenized : tokenize source file = .ok tokens) (small : byteLength source.toList < 2 ^ 32) :
    InOrder (readable tokens) := by
  have lossless := lossless_of_tokenize tokenized small
  refine ⟨fun token member => ?_, ?_⟩
  · have open_ : token.kind ≠ .eof := by
      simpa using List.all_eq_true.mp List.all_takeWhile token member
    obtain ⟨placed, closing, rfl, closed, _⟩ := Lexeme.tokenText_of_tokenize tokenized
    have listed : token ∈ placed ++ [closing] := (List.takeWhile_sublist _).subset member
    rcases List.mem_append.mp listed with listed | last
    · have here : token ∈ (placed ++ [closing]).dropLast := by rwa [List.dropLast_concat]
      exact UInt32.lt_iff_toNat_lt.mpr (lossless.texts token here).2.1
    · obtain rfl := List.mem_singleton.mp last
      exact absurd closed open_
  · exact (lossless.ordered.sublist (List.takeWhile_sublist _)).imp UInt32.le_iff_toNat_le.mpr

/-- The spans of a tree that a source is read as nest, down to the last supporting node. -/
theorem spans_nest {source file : String} {tokens : List Token} {options : Options} {expr : Expr}
    (tokenized : tokenize source file = .ok tokens) (small : byteLength source.toList < 2 ^ 32)
    (accepted : parse tokens file options = .accepted expr) : expr.outline.Nested tokens := by
  obtain ⟨stop, reads, closed⟩ := parse_accepted_iff.mp accepted
  have derives : Derives (.expr .expression) _ expr := (Rule.phrase_of_reads reads).2.2
  rw [Setting.slice_eq_readable reads closed] at derives
  have same : readable (Parser.ofTokens tokens file options).setting.buffer.toList
      = readable tokens := Buffer.readable_toList tokens file
  rw [same] at derives
  have laid : LaidOut (readable tokens) [expr.outline] := derives.isLaidOut
  have among : ∀ token ∈ readable tokens, token ∈ tokens := fun token member =>
    (List.takeWhile_sublist _).subset member
  exact laid.nested (inOrder_of_tokenize tokenized small) among _ List.mem_cons_self

/-- The parentheses of `(1 + 2) / 3` belong to no node: the whole starts behind the opening one. -/
theorem spans_nest_parenthesized :
    let number (text : String) (start : Nat) : Token := ⟨.number, text, .ofBytes start 1 "shell"⟩
    let tokens : List Token := [⟨.openParen, "(", .ofBytes 0 1 "shell"⟩, number "1" 1,
      ⟨.plus, "+", .ofBytes 3 1 "shell"⟩, number "2" 5, ⟨.closeParen, ")", .ofBytes 6 1 "shell"⟩,
      ⟨.slash, "/", .ofBytes 8 1 "shell"⟩, number "3" 10, .eof (.ofBytes 11 "shell")]
    let expr : Expr := .ofBinary
      (.ofBinary (.literal .number (number "1" 1)) .plus (.literal .number (number "2" 5))) .div
      (.literal .number (number "3" 10))
    tokenize "(1 + 2) / 3" "shell" = .ok tokens ∧
      parse tokens "shell" .strict = .accepted expr ∧ expr.outline.Nested tokens := by
  intro number tokens expr
  have tokenized : tokenize "(1 + 2) / 3" "shell" = .ok tokens := by decide +kernel
  have accepted : parse tokens "shell" .strict = .accepted expr := by cbv
  have small : byteLength "(1 + 2) / 3".toList < 2 ^ 32 := by decide
  exact ⟨tokenized, accepted, spans_nest tokenized small accepted⟩

end AdaExpressions
