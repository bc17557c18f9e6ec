import AdaExpressions.Proofs.Printing.Associations

/-!
# Printed aggregates

An aggregate is tried as an expression in parentheses first, then as an extension, and a component
with choices in front of it. One positional component alone is read as an expression in parentheses
and no aggregate is tried; every other content starts with an expression that ends too early for
that, or with none.

Results: `AggregatePieces.primary`, `AggregatePieces.qualified`.
-/

namespace AdaExpressions

open Lexeme (TokenText)
open Program Grammar

section

variable {setting : Setting} {start stop : Nat}

/-! ### What stands in front of a choice -/

/-- The first item is all there is, or a separator stands behind it. -/
theorem first_of_separated {α : Type} {separator : Kind} {item : Program α} {values : List α}
    (more : separator ≠ .eof)
    (reads : Reads setting (separated separator item) start (.done values stop)) :
    ∃ first middle, Reads setting item start (.done first middle) ∧
      (middle = stop ∨ setting.buffer.kind middle = separator) := by
  obtain ⟨first, middle, readsFirst, _⟩ := reads_bind_done.mp reads
  refine ⟨first, middle, readsFirst, ?_⟩
  by_cases bar : setting.buffer.kind middle = separator
  · exact .inr bar
  · cases (reads_separated_one more readsFirst bar).unique reads
    exact .inl rfl

theorem exprBefore_of_choice {choice : Choice}
    (reads : Reads setting (call .choice) start (.done choice stop)) :
    setting.ExprBefore [.dotDot, setting.buffer.kind stop] start := by
  have range {inner : Expr} {stop : Nat} {kinds : List Kind}
      (reads : Reads setting (expr .discreteRange) start (.done inner stop)) :
      setting.ExprBefore (.dotDot :: kinds) start := by
    obtain ⟨low, middle, readsLow, dots⟩ := exists_simpleExpr_of_range reads
    have ends : setting.EndsAt middle := by
      rw [Setting.EndsAt, dots]
      decide
    exact .inr ⟨low, middle, reads_expression_of_simpleExpr readsLow ends, by simp [dots]⟩
  have body : Grammar.choice.Meets setting (moving setting) start fun _ stop =>
      setting.ExprBefore [.dotDot, setting.buffer.kind stop] start := by
    simp only [Grammar.choice, meets_bind, meets_firstOf_cons, meets_firstOf_nil]
    refine ⟨⟨trivial, fun _ _ reads _ => range reads⟩, fun _ =>
      ⟨⟨trivial, fun tree stop reads _ => .inr ⟨tree, stop, reads, by simp⟩⟩, fun _ => ?_⟩⟩
    simp only [meets_nextKind, meets_ite, meets_bind, meets_pure, meets_fail, implies_true, and_true]
    exact fun others => (meets_take (by decide)).mpr fun _ _ => .inl (by rw [others]; decide)
  have readsBody : Reads setting Grammar.choice start (.done choice stop) := reads.readsBy
  have before := Meets.of_calls (fun _ _ _ _ => Rule.stop_of_reads) body readsBody
  exact before

theorem exprBefore_of_choiceList {choices : List Choice}
    (reads : Reads setting (call .choiceList) start (.done choices stop)) :
    setting.ExprBefore [.dotDot, .pipe, setting.buffer.kind stop] start := by
  obtain ⟨first, middle, readsFirst, ends⟩ := first_of_separated (by decide) reads.readsBy
  have before := exprBefore_of_choice readsFirst
  rcases ends with rfl | bar
  · exact before.mono (by simp)
  · rw [bar] at before
    exact before.mono (by simp)

end

section

variable {pieces more : List Piece} {shape other : Shape}

/-! ### Components -/

theorem failsAt_choiceList {setting : Setting} {start : Nat}
    (noExpr : setting.buffer.kind start ∉ exprStarters)
    (notOthers : setting.buffer.kind start ≠ .kwOthers) :
    (call .choiceList).FailsAt setting start := by
  have range := ExprRule.discreteRange.failsAt_of_start noExpr
  have expression := ExprRule.expression.failsAt_of_start noExpr
  have none_ : Reads setting (firstOf [expr .discreteRange, expr .expression]) start
      (.done none start) := reads_firstOf_none (by simp [range, expression])
  have choice : (call .choice).FailsAt setting start := by
    refine .call (.behind none_ (.behind reads_nextKind ?_))
    rw [if_neg notOthers]
    exact .fail rfl
  exact .call choice.bind

/-- A value as a component has it, behind what designates the component. -/
theorem ValuePieces.component {setting : Setting} {start middle stop : Nat}
    {designator : Option Designator} (value : ValuePieces pieces shape)
    (front : Reads setting (attempt aggregateDesignator) start (.done designator middle))
    (stands : setting.Stands pieces middle stop)
    (follows : setting.buffer.kind stop ∈ [Kind.comma, .closeParen]) :
    ∃ tree, tree.shape = shape ∧
      Reads setting (call .aggregateAssociation) start (.done (.of designator tree) stop) := by
  obtain ⟨tree, same, ⟨found, reads⟩ | ⟨found, reads⟩⟩ := value.read stands follows
  · refine ⟨tree, same, .call (.andThen front (.andThen reads_nextKind ?_))⟩
    rw [if_pos found]
    exact .andThen reads .yield
  · refine ⟨tree, same, .call (.andThen front (.andThen reads_nextKind ?_))⟩
    rw [if_neg found]
    exact .andThen reads .yield

/-- A value is not read as choices with an arrow behind them. -/
theorem ValuePieces.noDesignator {setting : Setting} {start stop : Nat}
    (value : ValuePieces pieces shape) (stands : setting.Stands pieces start stop)
    (follows : setting.buffer.kind stop ∈ [Kind.comma, .closeParen]) :
    aggregateDesignator.FailsAt setting start := by
  have apart : ∀ kind ∈ [Kind.comma, .closeParen], kind ≠ .dotDot ∧ kind ≠ .pipe ∧ kind ≠ .arrow := by
    decide
  obtain ⟨dots, bar, arrow⟩ := apart _ follows
  obtain ⟨tree, _, ⟨found, _⟩ | ⟨_, reads⟩⟩ := value.read stands follows
  · exact (failsAt_choiceList (by rw [found]; decide) (by rw [found]; decide)).extent.bind
  · have choices : Reads setting (call .choiceList) start (.done [.expr tree] stop) :=
      .call (reads_separated_one (by decide) (reads_choice_expression reads dots) bar)
    exact .behind (.extent choices) (FailsAt.take arrow).bind

/-- The pieces of a component, at whose start no expression ends as an ancestor does, nor, unless it
is positional, as one in parentheses does. -/
structure ComponentPieces (isPositional : Bool) (pieces : List Piece) (shape : Shape) : Prop
    extends ReadBack suffixHeads suffixLasts [.comma, .closeParen] (.call .aggregateAssociation)
      (Association.shape "AggregateAssoc") pieces shape where
  before {setting : Setting} {start stop : Nat} :
    setting.Stands pieces start stop → setting.buffer.kind stop ∈ [Kind.comma, .closeParen] →
    setting.ExprBefore
      ([.dotDot, .pipe, .arrow] ++ if isPositional then [setting.buffer.kind stop] else []) start

theorem ComponentPieces.positional (value : ValuePieces pieces shape) :
    ComponentPieces true pieces (.node "AggregateAssoc" [.none, shape]) where
  block := value.block.mono (by decide) (by decide)
  reads := fun stands follows => by
    have front := reads_attempt_none (value.noDesignator stands follows)
    obtain ⟨tree, same, reads⟩ := value.component front stands follows
    exact ⟨.of none tree, by rw [← same]; rfl, reads⟩
  before := fun stands follows => (value.exprBefore stands follows).mono (by simp)

/-- A box is a component that is not read as an expression. -/
theorem ComponentPieces.box :
    ComponentPieces false [.word .diamond] (.node "AggregateAssoc" [.none, .text "DiamondExpr"]) where
  toReadBack := (ComponentPieces.positional .box).toReadBack
  before := fun stands _ => .inl (by rw [stands.1]; decide)

/-- The expressions that look like a single word. -/
theorem Expr.text_of_shape {expr : Expr} {content : String} (same : expr.shape = .text content) :
    content ∈ ["Null", "AccessDeref"] ∨ content = "DiamondExpr" ∧ ∃ span, expr = .box span := by
  cases expr with
  | dereference => cases same; simp
  | box span => cases same; simp
  | literal form token => cases form <;> simp_all [Expr.shape, LiteralForm.shape]
  | name path => cases path <;> simp [Expr.shape, Name.shape, Ident.shape] at same
  | _ => simp [Expr.shape] at same

/-- Choices that look the same make designators that look the same. -/
theorem Designator.shape_ofChoices {read choices : List Choice}
    (same : Choice.shapes read = Choice.shapes choices) (span span' : Span) :
    (ofChoices read span).shape = (ofChoices choices span').shape := by
  have alone {choices : List Choice} (span : Span) :
      (ofChoices choices span).shape = .list "AggregateMember" (Choice.shapes choices) ∧
          Choice.shapes choices ≠ [.text "OthersDesignator"] ∨
        (ofChoices choices span).shape = .text "OthersDesignator" ∧
          Choice.shapes choices = [.text "OthersDesignator"] := by
    unfold ofChoices
    split
    · exact .inr ⟨rfl, rfl⟩
    · next apart =>
        refine .inl ⟨rfl, fun others => ?_⟩
        rw [Choice.shapes_eq] at others
        obtain ⟨choice, rfl, other⟩ := List.map_eq_singleton_iff.mp others
        cases choice with
        | expr inner =>
            rcases Expr.text_of_shape other with known | ⟨same, _⟩
            · exact absurd known (by decide)
            · exact absurd same (by decide)
        | others span => exact apart span rfl
  rcases alone span, alone span' with ⟨⟨left, other⟩ | ⟨left, only⟩, ⟨right, other'⟩ | ⟨right, only'⟩⟩
  · rw [left, right, same]
  · exact absurd (same.trans only') other
  · exact absurd (same.symm.trans only) other'
  · rw [left, right]

/-- Choices, an arrow and a value. -/
theorem ComponentPieces.chosen {choices : List Choice} (some_ : choices ≠ [])
    (each : ∀ choice ∈ choices, ChoicePieces choice.pieces choice.shape)
    (value : ValuePieces more shape) (span : Span) :
    ComponentPieces false (Choice.listPieces choices ++ Piece.spaced .arrow ++ more)
      (.node "AggregateAssoc" [(Designator.ofChoices choices span).shape, shape]) where
  block := ((ChoicePieces.list some_ each).block.spaced value.block (by decide)).mono
    (by decide) (by decide)
  reads := fun {setting start stop} stands follows => by
    obtain ⟨middle, front, arrow, behind⟩ := stands.spaced
    obtain ⟨read, sameChoices, reads⟩ :=
      (ChoicePieces.list some_ each).reads front (by rw [arrow]; decide)
    let whole := (setting.extent start middle).span
    have designator : Reads setting (attempt aggregateDesignator) start
        (.done (some (.ofChoices read whole)) (middle + 1)) :=
      .attempt (.andThen (.extent reads) (.andThen (reads_take arrow (by decide)) .yield))
    obtain ⟨tree, same, reads⟩ := value.component designator behind follows
    refine ⟨.of (some (.ofChoices read whole)) tree, ?_, reads⟩
    rw [← Designator.shape_ofChoices sameChoices whole, ← same]
    rfl
  before := fun stands _ => by
    obtain ⟨middle, front, arrow, behind⟩ := stands.spaced
    obtain ⟨read, _, reads⟩ := (ChoicePieces.list some_ each).reads front (by rw [arrow]; decide)
    have before := exprBefore_of_choiceList reads
    rw [arrow] at before
    exact before

/-! ### Contents -/

/-- Whether the component has a value only, and one that is read as an expression. -/
def Association.isPositional : Association → Bool
  | .mk none (.box _) _ => false
  | .mk none _ _ => true
  | .mk (some _) _ _ => false

/-- Whether the content is one positional component. -/
def AggregateContent.isSole : AggregateContent → Bool
  | .fields [part] _ => part.isPositional
  | _ => false

/-- The pieces of what an aggregate consists of, behind its ancestor if it has one. -/
structure ContentPieces (isSole : Bool) (pieces : List Piece) (shape : Shape) : Prop
    extends ReadBack suffixHeads (.kwRecord :: suffixLasts) [.closeParen] aggregateContent
      AggregateContent.shape pieces shape where
  before {setting : Setting} {start stop : Nat} :
    setting.Stands pieces start stop → setting.buffer.kind stop = .closeParen →
    setting.ExprBefore
      ([.dotDot, .pipe, .arrow, .comma, .kwRecord] ++ if isSole then [.closeParen] else []) start

/-- An expression that starts with `null` ends in front of `record`. -/
theorem Setting.ExprBefore.notNullRecord {setting : Setting} {kinds : List Kind} {start : Nat}
    (before : setting.ExprBefore kinds start) (apart : .kwRecord ∉ kinds) :
    setting.kindsAt start ≠ (.kwNull, .kwRecord) := fun same => by
  obtain ⟨null, record⟩ := Prod.mk.inj same
  rw [null, if_neg (by decide)] at record
  have plain : setting.PlainAt start := by
    rw [Setting.PlainAt, null]
    decide
  have ends : setting.EndsAt (start + 1) := by
    rw [Setting.EndsAt, record]
    decide
  exact apart (record ▸ before.kind_mem (reads_expression_of_primary plain (reads_null null) ends))

theorem ContentPieces.nullRecord :
    ContentPieces false [.word .kwNull, .space, .word .kwRecord] (.text "NullRecord") where
  block := (Block.space (Block.word (show Kind.kwNull ∈ _ by decide))
    (Block.word (show Kind.kwRecord ∈ _ by decide))).mono (by decide) (by decide)
  reads := fun {setting start _} ⟨null, _, record, _, ends⟩ _ => by
    cases ends
    have seen : setting.kindsAt start = (.kwNull, .kwRecord) := by
      rw [Setting.kindsAt, null, if_neg (by decide), record]
    refine ⟨.nullRecord ((setting.buffer.token start).span.join
      (setting.buffer.token (start + 1)).span), rfl, .andThen .peek ?_⟩
    rw [if_pos seen]
    exact .andThen (reads_take null (by decide)) (.andThen (reads_take record (by decide)) .yield)
  before := fun {setting start _} ⟨null, _, record, _, _⟩ _ => by
    have plain : setting.PlainAt start := by
      rw [Setting.PlainAt, null]
      decide
    have ends : setting.EndsAt (start + 1) := by
      rw [Setting.EndsAt, record]
      decide
    exact .inr ⟨_, _, reads_expression_of_primary plain (reads_null null) ends, by simp [record]⟩

theorem ContentPieces.fields {parts : List Association} (some_ : parts ≠ [])
    (each : ∀ part ∈ parts,
      ComponentPieces part.isPositional part.pieces (part.shape "AggregateAssoc")) (span : Span) :
    ContentPieces (AggregateContent.fields parts span).isSole (Association.listPieces parts)
      (.list "AggregateContent" (Association.shapes "AggregateAssoc" parts)) := by
  obtain ⟨part, rest, rfl⟩ := List.exists_cons_of_ne_nil some_
  have before {setting : Setting} {start stop : Nat}
      (stands : setting.Stands (Association.listPieces (part :: rest)) start stop)
      (closed : setting.buffer.kind stop = .closeParen) :
      setting.ExprBefore ([.dotDot, .pipe, .arrow, .comma] ++
        if (AggregateContent.fields (part :: rest) span).isSole then [.closeParen] else []) start := by
    rw [Association.listPieces_eq] at stands
    obtain ⟨middle, first, ⟨rfl, rfl⟩ | comma⟩ := stands.first separates_comma
    · have before := (each part List.mem_cons_self).before first (by rw [closed]; decide)
      rw [closed] at before
      have sole : (AggregateContent.fields [part] span).isSole = part.isPositional := rfl
      exact before.mono fun kind => by simp [sole]; tauto
    · have before := (each part List.mem_cons_self).before first (by rw [comma]; decide)
      rw [comma] at before
      exact before.mono (by split <;> simp)
  refine ⟨⟨?_, fun {setting start stop} stands follows => ?_⟩, fun stands closed =>
    (before stands closed).mono fun kind => by simp; tauto⟩
  · rw [Association.listPieces_eq]
    exact (block_listed separates_comma some_ fun part member => (each part member).block).mono
      (List.Subset.refl _) (by decide)
  · have notNull := (before stands (List.mem_singleton.mp follows)).notNullRecord
      (by split <;> decide)
    rw [Association.listPieces_eq] at stands
    obtain ⟨read, same, reads⟩ := (ReadBack.list separates_comma (by decide) some_
      (fun part member => (each part member).toReadBack) (by decide)).reads stands follows
    have body : Reads setting aggregateContent start
        (.done (.fields read (associationsSpan read)) stop) := by
      refine .andThen .peek ?_
      rw [if_neg notNull]
      exact .andThen reads .yield
    exact ⟨_, by rw [AggregateContent.shape, Association.shapes_eq, same, Association.shapes_eq],
      body⟩

/-! ### Aggregates -/

/-- The pieces between the parentheses of an aggregate, which are not read as an expression there. -/
structure AggregatePieces (pieces : List Piece) (shape : Shape) : Prop where
  block : Block suffixHeads (.kwRecord :: suffixLasts) pieces
  before {setting : Setting} {start stop : Nat} :
    setting.Stands pieces start stop → setting.buffer.kind stop = .closeParen →
    setting.ExprBefore [.dotDot, .pipe, .arrow, .comma, .kwRecord, .kwWith] start
  reads {setting : Setting} {start stop : Nat} :
    setting.buffer.kind start = .openParen → setting.Stands pieces (start + 1) stop →
    setting.buffer.kind stop = .closeParen →
    ∃ tree, tree.shape = shape ∧ Reads setting (expr .aggregate) start (.done tree (stop + 1))

theorem ContentPieces.aggregate (content : ContentPieces false pieces shape) :
    AggregatePieces pieces (.node "Aggregate" [.none, shape]) where
  block := content.block
  before := fun stands closed => (content.before stands closed).mono (by decide)
  reads := fun {setting start stop} opened stands closed => by
    obtain ⟨read, same, reads⟩ := content.reads stands (by rw [closed]; decide)
    have noAncestor : (do let ancestor ← expr .expression; let _ ← take .kwWith; return ancestor :
        Program Expr).FailsAt setting (start + 1) :=
      (content.before stands closed).failsAt (by decide)
    refine ⟨.aggregate none read (setting.extent start (stop + 1)).span, by rw [← same]; rfl, ?_⟩
    exact .call (.andThen (.extent (reads_enclosed opened
      (.andThen (reads_attempt_none noAncestor) (.andThen reads .yield)) closed)) .yield)

/-- An extension of what an ancestor, which must not go on with `with`, gives. -/
theorem ContentPieces.extension {isSole : Bool} (ancestor : ExprPieces printedFollow pieces shape)
    (content : ContentPieces isSole more other) :
    AggregatePieces (pieces ++ Piece.spaced .kwWith ++ more) (.node "Aggregate" [shape, other]) where
  block := (ancestor.block.spaced content.block (by decide)).mono (by decide) (List.Subset.refl _)
  before := fun stands _ => by
    obtain ⟨middle, front, with_, _⟩ := stands.spaced
    obtain ⟨tree, _, reads⟩ := ancestor.reads front (by rw [with_]; decide)
    exact .inr ⟨tree, middle, reads, by simp [with_]⟩
  reads := fun {setting start stop} opened stands closed => by
    obtain ⟨middle, front, with_, behind⟩ := stands.spaced
    obtain ⟨tree, same, readsAncestor⟩ := ancestor.reads front (by rw [with_]; decide)
    obtain ⟨read, sameContent, reads⟩ := content.reads behind (by rw [closed]; decide)
    refine ⟨.aggregate (some tree) read (setting.extent start (stop + 1)).span,
      by rw [← same, ← sameContent]; rfl, ?_⟩
    exact .call (.andThen (.extent (reads_enclosed opened
      (.andThen (.attempt (.andThen readsAncestor (.andThen (reads_take with_ (by decide)) .yield)))
        (.andThen reads .yield)) closed)) .yield)

/-- What stands between the parentheses of an aggregate is no expression up to their end. -/
theorem AggregatePieces.notEnclosed {setting : Setting} {start stop : Nat}
    (aggregate : AggregatePieces pieces shape) (stands : setting.Stands pieces start stop)
    (closed : setting.buffer.kind stop = .closeParen) :
    (do let tree ← expr .expression; let _ ← take .closeParen; return tree :
      Program Expr).FailsAt setting start :=
  (aggregate.before stands closed).failsAt (by decide)

theorem AggregatePieces.primary (aggregate : AggregatePieces pieces shape) :
    PrimaryPieces (Piece.parenthesized pieces) shape where
  block := aggregate.block.parenthesized.mono (by decide) (by decide)
  reads := fun {setting start _} stands _ => by
    obtain ⟨last, opened, inner, closed, rfl⟩ := stands.parenthesized
    obtain ⟨tree, same, reads⟩ := aggregate.reads opened inner closed
    have conditional : ∀ kind ∈ suffixHeads, kind ∉ ExprRule.conditional.starters := by decide
    have noConditional :=
      ExprRule.conditional.failsAt_of_start (conditional _ (inner.kind_mem aggregate.block))
    have fails : (expr .parenthesized).FailsAt setting start :=
      .call (.behind (reads_take opened (by decide))
        (.orElse_bind noConditional (aggregate.notEnclosed inner closed)))
    exact ⟨tree, same, reads_primary_of_aggregate opened fails reads⟩

theorem AggregatePieces.qualified {bare : Bool} (base : NamePieces bare more other)
    (aggregate : AggregatePieces pieces shape) :
    NamePieces false (more ++ .word .tick :: Piece.parenthesized pieces)
      (.node "QualExpr" [other, shape]) := by
  refine base.qualification aggregate.block.parenthesized fun {setting start _} stands => ?_
  obtain ⟨last, opened, inner, closed, rfl⟩ := stands.parenthesized
  obtain ⟨tree, same, reads⟩ := aggregate.reads opened inner closed
  have fails : (parenthesized (expr .expression)).FailsAt setting start :=
    .behind (reads_take opened (by decide)) (aggregate.notEnclosed inner closed)
  exact ⟨tree, same, reads_orElse fails reads⟩

end

end AdaExpressions
