import AdaExpressions.Proofs.Printing.Names

/-!
# Printed conditional expressions, allocators and raise expressions

A conditional expression stands in parentheses of its own, and a word or a delimiter ends each of its
parts. A raise expression without a message takes what stands behind a following `with` for one, so
what ends in such a raise expression is read back only where no `with` follows.

Results: `PrimaryPieces.ifExpr`, `PrimaryPieces.caseExpr`, `PrimaryPieces.quantified`,
`NamePieces.new`, `ExprPieces.raiseMessage`.
-/

namespace AdaExpressions

open Lexeme (TokenText)
open Program Grammar

variable {setting : Setting} {start stop : Nat} {pieces more : List Piece} {shape other : Shape}

/-- A conditional expression in its parentheses is an operand. -/
theorem reads_primary_of_enclosed {tree : Expr} (opened : setting.buffer.kind start = .openParen)
    (reads : Reads setting (expr .conditional) (start + 1) (.done tree stop))
    (closed : setting.buffer.kind stop = .closeParen) :
    Reads setting (expr .primary) start (.done tree (stop + 1)) :=
  reads_primary_of_parenthesized opened
    (.call (reads_enclosed opened (reads_orElse_first reads) closed))

/-! ### If expressions -/

/-- Both expressions of the part are read from what is printed for them. -/
def ElsifPart.IsRead : ElsifPart → Prop
  | .mk condition consequence _ =>
      ExprPieces raiseFollow condition.pieces condition.shape ∧
        ExprPieces raiseFollow consequence.pieces consequence.shape

/-- A condition, the word `then` and what follows from the condition. -/
theorem reads_consequence {condition consequence : List Piece}
    (readsCondition : ExprPieces raiseFollow condition shape)
    (readsConsequence : ExprPieces raiseFollow consequence other)
    (stands : setting.Stands (condition ++ Piece.spaced .kwThen ++ consequence) start stop)
    (follows : setting.buffer.kind stop ∈ raiseFollow) :
    ∃ first second, first.shape = shape ∧ second.shape = other ∧
      Reads setting Grammar.consequence start (.done (first, second) stop) := by
  obtain ⟨middle, standsCondition, then_, standsConsequence⟩ := stands.spaced
  obtain ⟨first, same, reads⟩ := readsCondition.reads standsCondition (by rw [then_]; decide)
  obtain ⟨second, sameSecond, readsSecond⟩ := readsConsequence.reads standsConsequence follows
  exact ⟨first, second, same, sameSecond,
    .andThen reads (.andThen (reads_take then_ (by decide)) (.andThen readsSecond .yield))⟩

theorem ElsifPart.shapes_eq (parts : List ElsifPart) :
    ElsifPart.shapes parts = parts.map ElsifPart.shape := by
  induction parts <;> simp_all [shapes]

theorem block_elsifs {first : List Kind} {elsifs : List ElsifPart}
    (each : ∀ part ∈ elsifs, part.IsRead) (front : Block first printedLasts pieces) :
    Block first printedLasts (pieces ++ ElsifPart.listPieces elsifs) := by
  induction elsifs generalizing pieces with
  | nil => simpa [ElsifPart.listPieces] using front
  | cons part rest ih =>
      obtain ⟨condition, consequence, span⟩ := part
      obtain ⟨readsCondition, readsConsequence⟩ := each _ List.mem_cons_self
      have whole := (front.spaced readsCondition.block (show Kind.kwElsif ∈ _ by decide)).spaced
        readsConsequence.block (show Kind.kwThen ∈ _ by decide)
      have more := ih (fun part member => each part (List.mem_cons_of_mem _ member)) whole
      simpa [ElsifPart.listPieces, ElsifPart.pieces] using more

/-- What is printed for elsif parts starts with `elsif`, or there are none. -/
theorem kind_of_elsifs {elsifs : List ElsifPart}
    (stands : setting.Stands (ElsifPart.listPieces elsifs) start stop) :
    start = stop ∨ setting.buffer.kind start = .kwElsif := by
  cases elsifs with
  | nil => exact .inl (by simpa [ElsifPart.listPieces] using stands)
  | cons part rest =>
      obtain ⟨condition, consequence, span⟩ := part
      simp only [ElsifPart.listPieces, ElsifPart.pieces, List.append_assoc] at stands
      exact .inr stands.1

/-- One round of the loop in `elsifParts`, which keeps its parts in reverse. -/
def elsifRound (parts : List ElsifPart) : Program (Option (List ElsifPart)) := do
  if (← nextKind) = .kwElsif then
    let word ← take .kwElsif
    let (condition, consequence) ← Grammar.consequence
    let part : ElsifPart := .mk condition consequence (word.span.join consequence.span)
    return some (part :: parts)
  else
    return none

theorem elsifParts_eq : elsifParts = (do
    let parts ← iterate [] elsifRound
    return parts.reverse) :=
  rfl

theorem reads_elsifRounds {elsifs : List ElsifPart} (each : ∀ part ∈ elsifs, part.IsRead)
    (stands : setting.Stands (ElsifPart.listPieces elsifs) start stop)
    (follows : setting.buffer.kind stop ∈ raiseFollow)
    (ends : setting.buffer.kind stop ≠ .kwElsif) (read : List ElsifPart) :
    ∃ parts, ElsifPart.shapes parts = ElsifPart.shapes elsifs ∧
      Reads setting (iterate read elsifRound) start (.done (parts.reverse ++ read) stop) := by
  induction elsifs generalizing read start with
  | nil =>
      cases (show start = stop by simpa [ElsifPart.listPieces] using stands)
      refine ⟨[], rfl, .iterateStop (.andThen reads_nextKind ?_)⟩
      rw [if_neg ends]
      exact .yield
  | cons part rest ih =>
      obtain ⟨condition, consequence, span⟩ := part
      obtain ⟨readsCondition, readsConsequence⟩ := each _ List.mem_cons_self
      simp only [ElsifPart.listPieces, ElsifPart.pieces] at stands
      obtain ⟨middle, standsPart, standsRest⟩ := Setting.stands_append.mp stands
      rw [List.append_assoc, List.append_assoc, ← List.append_assoc condition.pieces] at standsPart
      obtain ⟨word, standsPart⟩ := Setting.stands_cons_word standsPart
      have behind : setting.buffer.kind middle ∈ raiseFollow := by
        rcases kind_of_elsifs standsRest with rfl | elsif_
        · exact follows
        · rw [elsif_]
          decide
      obtain ⟨first, second, same, sameSecond, reads⟩ :=
        reads_consequence readsCondition readsConsequence standsPart behind
      let span := (setting.buffer.token start).span.join second.span
      obtain ⟨parts, sameRest, readsRest⟩ :=
        ih (fun part member => each part (List.mem_cons_of_mem _ member)) standsRest
          (.mk first second span :: read)
      refine ⟨.mk first second span :: parts, ?_, ?_⟩
      · exact congrArg₂ List.cons
          (by rw [ElsifPart.shape, ElsifPart.shape, same, sameSecond]) sameRest
      · rw [List.reverse_cons, List.append_assoc, List.singleton_append]
        refine .iterateNext (.andThen reads_nextKind ?_) readsRest
        rw [if_pos word]
        exact .andThen (reads_take word (by decide)) (.andThen reads .yield)

theorem reads_elsifParts {elsifs : List ElsifPart} (each : ∀ part ∈ elsifs, part.IsRead)
    (stands : setting.Stands (ElsifPart.listPieces elsifs) start stop)
    (follows : setting.buffer.kind stop ∈ raiseFollow)
    (ends : setting.buffer.kind stop ≠ .kwElsif) :
    ∃ parts, ElsifPart.shapes parts = ElsifPart.shapes elsifs ∧
      Reads setting elsifParts start (.done parts stop) := by
  obtain ⟨parts, same, reads⟩ := reads_elsifRounds each stands follows ends []
  refine ⟨parts, same, ?_⟩
  rw [elsifParts_eq]
  refine .andThen reads ?_
  rw [List.append_nil, List.reverse_reverse]
  exact .yield

/-- What is printed behind the elsif parts: `else` and an expression, or nothing. -/
def elsePieces : Option Expr → List Piece
  | none => []
  | some alternative => Piece.spaced .kwElse ++ alternative.pieces

theorem reads_elsePart {alternative : Option Expr}
    (each : ∀ expr ∈ alternative, ExprPieces raiseFollow expr.pieces expr.shape)
    (stands : setting.Stands (elsePieces alternative) start stop)
    (closed : setting.buffer.kind stop = .closeParen) :
    ∃ tree, Expr.optionShape tree = Expr.optionShape alternative ∧
      Reads setting elsePart start (.done tree stop) := by
  cases alternative with
  | none =>
      cases (show start = stop from stands)
      refine ⟨none, rfl, .andThen reads_nextKind ?_⟩
      rw [if_neg (by rw [closed]; decide)]
      exact .yield
  | some alternative =>
      obtain ⟨word, standsExpr⟩ := Setting.stands_cons_word (Setting.stands_space.mp stands)
      obtain ⟨tree, same, reads⟩ := (each alternative rfl).reads standsExpr (by rw [closed]; decide)
      refine ⟨some tree, same, .andThen reads_nextKind ?_⟩
      rw [if_pos word]
      exact .andThen (reads_take word (by decide)) (.andThen reads .yield)

/-- An if expression in its parentheses. -/
theorem PrimaryPieces.ifExpr {condition consequence : List Piece} {elsifs : List ElsifPart}
    {alternative : Option Expr} (readsCondition : ExprPieces raiseFollow condition shape)
    (readsConsequence : ExprPieces raiseFollow consequence other)
    (elsifsRead : ∀ part ∈ elsifs, part.IsRead)
    (alternativeRead : ∀ expr ∈ alternative, ExprPieces raiseFollow expr.pieces expr.shape) :
    PrimaryPieces (Piece.parenthesized (.word .kwIf :: .space :: condition ++ Piece.spaced .kwThen ++
        consequence ++ ElsifPart.listPieces elsifs ++ elsePieces alternative))
      (.node "IfExpr" [shape, other, .list "" (ElsifPart.shapes elsifs),
        Expr.optionShape alternative]) where
  block := by
    have front := (((Block.word (show Kind.kwIf ∈ _ by decide)).space readsCondition.block).spaced
      readsConsequence.block (show Kind.kwThen ∈ _ by decide))
    have middle := block_elsifs elsifsRead front
    have whole : Block [.kwIf] printedLasts (.word .kwIf :: .space :: condition ++
        Piece.spaced .kwThen ++ consequence ++ ElsifPart.listPieces elsifs ++
        elsePieces alternative) := by
      cases alternative with
      | none => simpa [elsePieces] using middle
      | some alternative =>
          simpa [elsePieces] using
            middle.spaced (alternativeRead alternative rfl).block (show Kind.kwElse ∈ _ by decide)
    exact whole.parenthesized.mono (by decide) (by decide)
  reads := fun {setting start _} stands _ => by
    obtain ⟨last, opened, inner, closed, rfl⟩ := stands.parenthesized
    obtain ⟨third, inner, standsElse⟩ := Setting.stands_append.mp inner
    obtain ⟨second, inner, standsElsifs⟩ := Setting.stands_append.mp inner
    obtain ⟨word, standsConsequence⟩ := Setting.stands_cons_word inner
    -- Behind the elsif parts stands `else` or the closing parenthesis, which ends any expression.
    have endsElsifs : setting.buffer.kind third = .kwElse ∨ setting.buffer.kind third = .closeParen := by
      cases alternative with
      | none => exact .inr ((show third = last from standsElse) ▸ closed)
      | some alternative => exact .inl (Setting.stands_cons_word standsElse).1
    have followsElsifs : setting.buffer.kind third ∈ raiseFollow ∧
        setting.buffer.kind third ≠ .kwElsif := by
      rcases endsElsifs with found | found <;> rw [found] <;> decide
    have followsConsequence : setting.buffer.kind second ∈ raiseFollow := by
      rcases kind_of_elsifs standsElsifs with rfl | found
      · exact followsElsifs.1
      · rw [found]
        decide
    obtain ⟨tested, result, sameTested, sameResult, consequence_⟩ :=
      reads_consequence readsCondition readsConsequence standsConsequence followsConsequence
    obtain ⟨parts, sameParts, parts_⟩ :=
      reads_elsifParts elsifsRead standsElsifs followsElsifs.1 followsElsifs.2
    obtain ⟨other, sameOther, other_⟩ := reads_elsePart alternativeRead standsElse closed
    have ifExpr : Reads setting (expr .ifExpr) (start + 1)
        (.done (.ifExpr tested result parts other (setting.extent (start + 1) last).span) last) :=
      .call (.andThen (.extent (.andThen (reads_take word (by decide)) (.andThen consequence_
        (.andThen parts_ (.andThen other_ .yield))))) .yield)
    have conditional : Reads setting (expr .conditional) (start + 1)
        (.done (.ifExpr tested result parts other (setting.extent (start + 1) last).span) last) :=
      .call (reads_choice [] rfl (by simp) ifExpr)
    refine ⟨_, ?_, reads_primary_of_enclosed opened conditional closed⟩
    rw [Expr.shape, sameTested, sameResult, sameParts, sameOther]

/-! ### Case expressions -/

/-- What is printed for an alternative behind a space. -/
def CaseAlternative.bodyPieces : CaseAlternative → List Piece
  | .mk choices value _ =>
      .word .kwWhen :: .space :: Choice.listPieces choices ++ Piece.spaced .arrow ++ value.pieces

theorem CaseAlternative.listPieces_eq {alternatives : List CaseAlternative}
    (some_ : alternatives ≠ []) :
    CaseAlternative.listPieces alternatives =
      .space :: Piece.listed [.word .comma, .space] bodyPieces alternatives := by
  have front (alternative : CaseAlternative) :
      alternative.pieces = .space :: alternative.bodyPieces := by
    obtain ⟨choices, value, span⟩ := alternative
    rfl
  induction alternatives with
  | nil => exact absurd rfl some_
  | cons alternative rest ih =>
      cases rest with
      | nil => exact front alternative
      | cons next rest => simp [listPieces, Piece.listed, front, ih (List.cons_ne_nil _ _)]

theorem CaseAlternative.shapes_eq (alternatives : List CaseAlternative) :
    CaseAlternative.shapes alternatives = alternatives.map CaseAlternative.shape := by
  induction alternatives <;> simp_all [shapes]

/-- The pieces of an alternative behind its space. -/
abbrev AlternativePieces : List Piece → Shape → Prop :=
  ReadBack [.kwWhen] printedLasts [.comma, .closeParen] caseAlternative CaseAlternative.shape

theorem ExprPieces.alternative {choices : List Choice} (some_ : choices ≠ [])
    (each : ∀ choice ∈ choices, ChoicePieces choice.pieces choice.shape)
    (value : ExprPieces raiseFollow more shape) :
    AlternativePieces (.word .kwWhen :: .space :: Choice.listPieces choices ++ Piece.spaced .arrow ++
        more) (.node "CaseExprAlternative" [.list "" (Choice.shapes choices), shape]) where
  block := ((Block.word (by decide)).space (ChoicePieces.list some_ each).block).spaced value.block
    (by decide)
  reads := fun {setting start stop} stands follows => by
    obtain ⟨middle, front, arrow, behind⟩ := stands.spaced
    obtain ⟨when_, front⟩ := Setting.stands_cons_word front
    obtain ⟨read, sameChoices, readsChoices⟩ :=
      (ChoicePieces.list some_ each).reads front (by rw [arrow]; decide)
    have less : [Kind.comma, .closeParen] ⊆ raiseFollow := by decide
    obtain ⟨tree, same, reads⟩ := value.reads behind (less follows)
    let span := (setting.buffer.token start).span.join tree.span
    exact ⟨.mk read tree span, by rw [CaseAlternative.shape, sameChoices, same],
      .andThen (reads_take when_ (by decide)) (.andThen readsChoices
        (.andThen (reads_take arrow (by decide)) (.andThen reads .yield)))⟩

theorem PrimaryPieces.caseExpr {alternatives : List CaseAlternative}
    (subject : ExprPieces raiseFollow pieces shape) (some_ : alternatives ≠ [])
    (each : ∀ part ∈ alternatives, AlternativePieces part.bodyPieces part.shape) :
    PrimaryPieces (Piece.parenthesized (.word .kwCase :: .space :: pieces ++ [.space, .word .kwIs] ++
        CaseAlternative.listPieces alternatives))
      (.node "CaseExpr" [shape, .list "" (CaseAlternative.shapes alternatives)]) := by
  have list := ReadBack.list separates_comma (by decide) some_ each (by decide)
  have whole : .word .kwCase :: .space :: pieces ++ [.space, .word .kwIs] ++
      CaseAlternative.listPieces alternatives =
        .word .kwCase :: .space :: pieces ++ Piece.spaced .kwIs ++
          Piece.listed [.word .comma, .space] CaseAlternative.bodyPieces alternatives := by
    simp [CaseAlternative.listPieces_eq some_, Piece.spaced]
  rw [whole]
  refine ⟨?_, fun {setting start stop} stands _ => ?_⟩
  · have block := ((Block.word (show Kind.kwCase ∈ _ by decide)).space subject.block).spaced
      list.block (show Kind.kwIs ∈ _ by decide)
    exact block.parenthesized.mono (by decide) (by decide)
  · obtain ⟨last, opened, inner, closed, rfl⟩ := stands.parenthesized
    obtain ⟨middle, front, is_, behind⟩ := inner.spaced
    obtain ⟨word, front⟩ := Setting.stands_cons_word front
    obtain ⟨tree, same, readsSubject⟩ := subject.reads front (by rw [is_]; decide)
    obtain ⟨parts, sameParts, readsParts⟩ := list.reads behind (by rw [closed]; decide)
    have caseExpr : Reads setting (expr .caseExpr) (start + 1)
        (.done (.caseExpr tree parts (setting.extent (start + 1) last).span) last) :=
      .call (.andThen (.extent (.andThen (reads_take word (by decide)) (.andThen readsSubject
        (.andThen (reads_take is_ (by decide)) (.andThen readsParts .yield))))) .yield)
    have noIf : (expr .ifExpr).FailsAt setting (start + 1) :=
      ExprRule.ifExpr.failsAt_of_start (by rw [word]; decide)
    have conditional : Reads setting (expr .conditional) (start + 1)
        (.done (.caseExpr tree parts (setting.extent (start + 1) last).span) last) :=
      .call (reads_choice [.ifExpr] rfl (by simpa using noIf) caseExpr)
    refine ⟨_, ?_, reads_primary_of_enclosed opened conditional closed⟩
    rw [Expr.shape, same, CaseAlternative.shapes_eq, sameParts, CaseAlternative.shapes_eq]

/-! ### Quantified expressions -/

/-- The pieces of a range or an expression, as a loop runs over it and as a body is. -/
inductive ScopePieces : List Piece → Shape → Prop
  | range {pieces : List Piece} {shape : Shape} : RangePieces pieces shape → ScopePieces pieces shape
  | expression {pieces : List Piece} {shape : Shape} :
      ExprPieces raiseFollow pieces shape → ScopePieces pieces shape

theorem ScopePieces.block (scope : ScopePieces pieces shape) :
    Block printedHeads printedLasts pieces := by
  cases scope with
  | range bounds => exact bounds.block
  | expression whole => exact whole.block

theorem ScopePieces.reads (scope : ScopePieces pieces shape)
    (stands : setting.Stands pieces start stop)
    (follows : setting.buffer.kind stop ∈ [Kind.arrow, .closeParen]) :
    ∃ tree, tree.shape = shape ∧
      Reads setting (orElse (expr .discreteRange) (expr .expression)) start (.done tree stop) := by
  cases scope with
  | range bounds =>
      have less : [Kind.arrow, .closeParen] ⊆ .pipe :: printedFollow := by decide
      obtain ⟨tree, same, reads⟩ := bounds.reads stands (less follows)
      exact ⟨tree, same, reads_orElse_first reads⟩
  | expression whole =>
      have less : [Kind.arrow, .closeParen] ⊆ raiseFollow := by decide
      have apart : ∀ kind ∈ [Kind.arrow, .closeParen], kind ≠ .dotDot := by decide
      obtain ⟨tree, same, reads⟩ := whole.reads stands (less follows)
      have noRange := failsAt_discreteRange_of_expression reads (apart _ follows)
      exact ⟨tree, same, reads_orElse noRange reads⟩

/-- What a scope starts with is a simple expression that does not end in front of `range`. -/
theorem ScopePieces.exists_simpleExpr (scope : ScopePieces pieces shape)
    (stands : setting.Stands pieces start stop)
    (follows : setting.buffer.kind stop = .arrow) :
    ∃ tree middle, Reads setting (expr .simpleExpr) start (.done tree middle) ∧
      setting.buffer.kind middle ≠ .kwRange := by
  cases scope with
  | range bounds =>
      obtain ⟨_, _, reads⟩ := bounds.reads stands (by rw [follows]; decide)
      obtain ⟨low, middle, readsLow, dots⟩ := exists_simpleExpr_of_range reads
      exact ⟨low, middle, readsLow, by rw [dots]; decide⟩
  | expression whole =>
      obtain ⟨_, _, reads⟩ := whole.reads stands (by rw [follows]; decide)
      obtain ⟨first, middle, readsFirst⟩ := exists_simpleExpr_of_expression reads
      refine ⟨first, middle, readsFirst, fun found => ?_⟩
      -- The expression would end there too, but it ends in front of the arrow.
      have ends : setting.EndsAt middle := by
        rw [Setting.EndsAt, found]
        decide
      cases reads.unique (reads_expression_of_simpleExpr readsFirst ends)
      cases found.symm.trans follows

/-- A simple expression is not the mark of a subtype if `range` does not stand behind it. -/
theorem failsAt_constrainedSubtype {tree : Expr}
    (reads : Reads setting (expr .simpleExpr) start (.done tree stop))
    (missing : setting.buffer.kind stop ≠ .kwRange) :
    constrainedSubtype.FailsAt setting start := by
  by_cases starts : setting.buffer.kind start ∈ nameStarters
  · have plain : ∀ kind ∈ nameStarters, kind ∉ Op.starters (Op.unaryAdding ++ Op.highestUnary) := by
      decide
    obtain ⟨_, _, primary⟩ := exists_primary_of_simpleExpr (plain _ starts) reads
    obtain ⟨rule, member, readsRule⟩ := exists_of_choice primary.readsBy.readsBy
    have only : ∀ rule ∈ ChoiceTable.primary.alternatives.map Prod.snd,
        ∀ kind ∈ nameStarters, kind ∈ rule.starters → rule = .name := by decide
    cases only rule member _ starts (ExprRule.start_of_reads readsRule)
    refine .behind readsRule (FailsAt.take fun found => missing ?_).bind
    have whole := reads_simpleExpr_of_primary (plainAt_of_name readsRule)
      (reads_primary_of_name readsRule) (by rw [found]; decide)
    cases reads.unique whole
    exact found
  · exact (ExprRule.name.failsAt_of_start starts).bind

/-- The pieces of what a loop runs over. -/
abbrev SourcePieces : List Piece → Shape → Prop :=
  ReadBack printedHeads printedLasts [.arrow] iterationSource IterationSource.shape

theorem ScopePieces.source (scope : ScopePieces pieces shape) : SourcePieces pieces shape where
  block := scope.block
  reads := fun {setting start stop} stands follows => by
    have arrow := List.mem_singleton.mp follows
    obtain ⟨_, _, readsFirst, missing⟩ := scope.exists_simpleExpr stands arrow
    obtain ⟨tree, same, reads⟩ := scope.reads stands (by rw [arrow]; decide)
    exact ⟨.expr tree, same,
      reads_orElse (failsAt_constrainedSubtype readsFirst missing) (.andThen reads .yield)⟩

theorem NamePieces.constrained {bare : Bool} (mark : NamePieces bare pieces shape)
    (bounds : RangePieces more other) :
    SourcePieces (pieces ++ Piece.spaced .kwRange ++ more)
      (.node "ConstrainedSubtype" [shape, other]) where
  block := (mark.block.spaced bounds.block (by decide)).mono (by decide) (by decide)
  reads := fun {setting start stop} stands follows => by
    have less : [Kind.arrow] ⊆ .pipe :: printedFollow := by decide
    obtain ⟨middle, front, range, behind⟩ := stands.spaced
    obtain ⟨tree, same, readsMark⟩ := mark.reads_name front (by rw [range]; decide)
    obtain ⟨constraint, sameBounds, readsBounds⟩ := bounds.reads behind (less follows)
    exact ⟨.constrained tree constraint (tree.span.join constraint.span),
      by rw [IterationSource.shape, same, sameBounds],
      reads_orElse_first (.andThen readsMark (.andThen (reads_take range (by decide))
        (.andThen readsBounds .yield)))⟩

/-- The pieces of a loop up to its arrow. -/
abbrev LoopPieces : List Piece → Shape → Prop :=
  ReadBack [.identifier] printedLasts [.arrow] (call .loopSpec) LoopSpec.shape

/-- What is printed in front of the source of a loop in reverse. -/
def reversePieces (reversed : Bool) : List Piece :=
  if reversed then [.word .kwReverse, .space] else []

theorem reads_reversed {reversed : Bool}
    (stands : setting.Stands (reversePieces reversed ++ pieces) start stop)
    (block : Block printedHeads printedLasts pieces) :
    ∃ middle, Reads setting Grammar.reversed start (.done reversed middle) ∧
      setting.Stands pieces middle stop := by
  cases reversed with
  | false =>
      have apart : ∀ kind ∈ printedHeads, kind ≠ .kwReverse := by decide
      refine ⟨start, .andThen reads_nextKind ?_, stands⟩
      rw [if_neg (apart _ (Setting.Stands.kind_mem stands block))]
      exact .yield
  | true =>
      obtain ⟨found, _, behind⟩ := stands
      refine ⟨start + 1, .andThen reads_nextKind ?_, behind⟩
      rw [if_pos found]
      exact .andThen (reads_take found (by decide)) .yield

theorem ReadBack.loop {parameter : Ident} (form : parameter.form = .identifier)
    (proper : TokenText .identifier parameter.token.text.toList) (iteration : Iteration)
    (reversed : Bool) (source : SourcePieces more other) :
    LoopPieces ([parameter.piece] ++ Piece.spaced iteration.word ++ (reversePieces reversed ++ more))
      (.node "ForLoopSpec" [parameter.shape, .text (iteration.phrase reversed), other]) where
  block := by
    have spelt : iteration.word ∈ Kind.delimiters ++ Kind.reservedWords := by
      cases iteration <;> decide
    have name : Block [.identifier] [.identifier] [parameter.piece] := by
      rw [Ident.piece, form]
      exact Block.token proper
    cases reversed with
    | false => simpa [reversePieces] using name.spaced source.block spelt
    | true =>
        have behind := (Block.word (show Kind.kwReverse ∈ _ by decide)).space source.block
        simpa [reversePieces] using name.spaced behind spelt
  reads := fun {setting start stop} stands follows => by
    obtain ⟨middle, front, word, behind⟩ := stands.spaced
    rw [Ident.piece, form] at front
    obtain ⟨found, same, ends⟩ := front
    cases ends
    obtain ⟨last, readsReversed, standsSource⟩ := reads_reversed behind source.block
    obtain ⟨read, sameSource, readsSource⟩ := source.reads standsSource follows
    have known : iteration.word ∈ [Kind.kwIn, .kwOf] := by cases iteration <;> decide
    have told : (if (setting.buffer.token (start + 1)).kind = .kwIn then Iteration.values
        else .elements) = iteration := by
      rw [show (setting.buffer.token (start + 1)).kind = iteration.word from word]
      cases iteration <;> rfl
    have readsLoop : Reads setting (call .loopSpec) start (.done (.mk
        ⟨.identifier, setting.buffer.token start⟩ (if (setting.buffer.token (start + 1)).kind = .kwIn
          then Iteration.values else .elements) reversed read
          ((setting.buffer.token start).span.join read.span)) stop) :=
      .call (.andThen (reads_take found (by decide)) (.andThen
        (reads_takeOneOf (word ▸ known) (by decide)) (.andThen readsReversed
          (.andThen readsSource .yield))))
    refine ⟨_, ?_, readsLoop⟩
    rw [LoopSpec.shape, told, sameSource, Ident.shape, Ident.shape, form, same]

/-- A quantified expression in its parentheses. -/
theorem PrimaryPieces.quantified (quantifier : Quantifier) (loop : LoopPieces pieces shape)
    (body : ScopePieces more other) :
    PrimaryPieces (Piece.parenthesized (.word .kwFor :: .space :: .word quantifier.word :: .space ::
        pieces ++ Piece.spaced .arrow ++ more))
      (.node "QuantifiedExpr" [.text quantifier.word.spelling, shape, other]) where
  block := by
    have spelt : quantifier.word ∈ Kind.delimiters ++ Kind.reservedWords := by
      cases quantifier <;> decide
    have front := (Block.word (show Kind.kwFor ∈ _ by decide)).space
      ((Block.word spelt).space loop.block)
    exact (front.spaced body.block (show Kind.arrow ∈ _ by decide)).parenthesized.mono
      (by decide) (by decide)
  reads := fun {setting start stop} stands _ => by
    obtain ⟨last, opened, inner, closed, rfl⟩ := stands.parenthesized
    obtain ⟨middle, front, arrow, behind⟩ := inner.spaced
    obtain ⟨for_, front⟩ := Setting.stands_cons_word front
    obtain ⟨word, front⟩ := Setting.stands_cons_word (Setting.stands_space.mp front)
    obtain ⟨read, same, readsLoop⟩ := loop.reads front (by rw [arrow]; decide)
    obtain ⟨tree, sameBody, readsBody⟩ := body.reads behind (by rw [closed]; decide)
    have known : quantifier.word ∈ [Kind.kwAll, .kwSome] := by cases quantifier <;> decide
    have told : (if (setting.buffer.token (start + 1 + 1)).kind = .kwAll then Quantifier.universal
        else .existential) = quantifier := by
      rw [show (setting.buffer.token (start + 1 + 1)).kind = quantifier.word from word]
      cases quantifier <;> rfl
    have readsQuantified : Reads setting (expr .quantified) (start + 1) (.done (.quantified
        (if (setting.buffer.token (start + 1 + 1)).kind = .kwAll then Quantifier.universal
          else .existential) read tree ((setting.buffer.token (start + 1)).span.join tree.span))
        last) :=
      .call (.andThen (reads_take for_ (by decide)) (.andThen
        (reads_takeOneOf (word ▸ known) (by decide)) (.andThen readsLoop
          (.andThen (reads_take arrow (by decide)) (.andThen readsBody .yield)))))
    have apart : ∀ rule ∈ [ExprRule.ifExpr, .caseExpr], Kind.kwFor ∉ rule.starters := by decide
    have conditional : Reads setting (expr .conditional) (start + 1) (.done _ last) :=
      .call (reads_choice [.ifExpr, .caseExpr] rfl
        (fun rule member => rule.failsAt_of_start (for_ ▸ apart rule member)) readsQuantified)
    refine ⟨_, ?_, reads_primary_of_enclosed opened conditional closed⟩
    rw [Expr.shape, told, same, sameBody]

/-! ### Allocators -/

/-- The allocator of what a name designates, where what stands between is read as a subpool. -/
theorem reads_primary_of_allocator {middle : Nat} {subpool : Option Expr} {designated : Expr}
    (word : setting.buffer.kind start = .kwNew)
    (readsSubpool : Reads setting (attempt (parenthesized (expr .name))) (start + 1)
      (.done subpool middle))
    (readsName : Reads setting (expr .name) middle (.done designated stop)) :
    Reads setting (expr .primary) start (.done (.allocator subpool designated
      ((setting.buffer.token start).span.join designated.span)) stop) := by
  have reads : Reads setting (expr .allocator) start (.done (.allocator subpool designated
      ((setting.buffer.token start).span.join designated.span)) stop) :=
    .call (.andThen (reads_take word (by decide)) (.andThen readsSubpool (.andThen readsName .yield)))
  have apart : ∀ rule ∈ [ExprRule.numberLiteral, .nullLiteral, .name], Kind.kwNew ∉ rule.starters := by
    decide
  exact .call (.remember (reads_choice [.numberLiteral, .nullLiteral, .name] rfl
    (fun rule member => rule.failsAt_of_start (word ▸ apart rule member)) reads))

theorem NamePieces.new {bare : Bool} (designated : NamePieces bare pieces shape) :
    PrimaryPieces (.word .kwNew :: .space :: pieces) (.node "Allocator" [.none, shape]) where
  block := ((Block.word (by decide)).space designated.block).mono (by decide) (by decide)
  reads := fun {setting start stop} stands ends => by
    obtain ⟨word, behind⟩ := Setting.stands_cons_word stands
    obtain ⟨tree, same, reads⟩ := designated.reads_name (Setting.stands_space.mp behind) ends
    have apart : ∀ kind ∈ nameStarters, kind ≠ .openParen := by decide
    have noSubpool : (parenthesized (expr .name)).FailsAt setting (start + 1) :=
      (FailsAt.take (apart _ (ExprRule.start_of_reads reads))).bind
    exact ⟨_, by rw [Expr.shape, same]; rfl,
      reads_primary_of_allocator word (reads_attempt_none noSubpool) reads⟩

theorem NamePieces.newIn {bare bare' : Bool} (subpool : NamePieces bare pieces shape)
    (designated : NamePieces bare' more other) :
    PrimaryPieces (.word .kwNew :: .space :: (Piece.parenthesized pieces ++ .space :: more))
      (.node "Allocator" [shape, other]) where
  block := ((Block.word (by decide)).space
    (subpool.block.parenthesized.space designated.block)).mono (by decide) (by decide)
  reads := fun {setting start stop} stands ends => by
    obtain ⟨word, behind⟩ := Setting.stands_cons_word stands
    obtain ⟨middle, front, behind⟩ := Setting.stands_append.mp (Setting.stands_space.mp behind)
    obtain ⟨last, opened, inner, closed, rfl⟩ := front.parenthesized
    obtain ⟨pool, same, readsPool⟩ := subpool.reads_name inner (by rw [closed]; decide)
    obtain ⟨tree, sameName, reads⟩ := designated.reads_name (Setting.stands_space.mp behind) ends
    exact ⟨_, by rw [Expr.shape, Expr.optionShape, same, sameName],
      reads_primary_of_allocator word (.attempt (reads_enclosed opened readsPool closed)) reads⟩

/-! ### Raise expressions -/

/-- A raise expression stands alone in front of what ends an expression. -/
theorem reads_expression_of_raise {exception message : Option Expr}
    (word : setting.buffer.kind start = .kwRaise)
    (reads : Reads setting raiseParts start (.done (exception, message) stop))
    (follows : setting.buffer.kind stop ∈ printedFollow) :
    Reads setting (expr .expression) start
      (.done (.raise exception message (setting.extent start stop).span) stop) := by
  have raise_ : Reads setting (expr .raiseExpr) start
      (.done (.raise exception message (setting.extent start stop).span) stop) :=
    .call (.andThen (.extent reads) .yield)
  have before : ∀ rule ∈ [ExprRule.numberLiteral, .nullLiteral, .name, .allocator, .conditional],
      Kind.kwRaise ∉ rule.starters := by decide
  have primary : Reads setting (expr .primary) start
      (.done (.raise exception message (setting.extent start stop).span) stop) :=
    .call (.remember (reads_choice [.numberLiteral, .nullLiteral, .name, .allocator, .conditional] rfl
      (fun rule member => rule.failsAt_of_start (word ▸ before rule member)) raise_))
  have plain : setting.PlainAt start := by
    rw [Setting.PlainAt, word]
    decide
  exact reads_expression_of_primary plain primary
    (endsAt_of_follow (List.mem_cons_of_mem _ follows)).1

theorem ExprPieces.reraise :
    ExprPieces printedFollow [.word .kwRaise] (.node "RaiseExpression" [.none, .none]) where
  block := (Block.word (by decide)).mono (by decide) (by decide)
  reads := fun {setting start _} ⟨word, _, ends⟩ follows => by
    cases ends
    have apart : ∀ kind ∈ printedFollow, kind ∉ nameStarters := by decide
    have noName : (expr .name).FailsAt setting (start + 1) :=
      ExprRule.name.failsAt_of_start (apart _ follows)
    have parts : Reads setting raiseParts start (.done (none, none) (start + 1)) :=
      .andThen (reads_take word (by decide)) (.andThen (reads_attempt_none noName) .yield)
    exact ⟨_, rfl, reads_expression_of_raise word parts follows⟩

theorem NamePieces.raise {bare : Bool} (exception : NamePieces bare pieces shape) :
    ExprPieces raiseFollow (.word .kwRaise :: .space :: pieces)
      (.node "RaiseExpression" [shape, .none]) where
  block := ((Block.word (by decide)).space exception.block).mono (by decide) (by decide)
  reads := fun {setting start stop} stands follows => by
    have ends : ∀ kind ∈ raiseFollow, kind ∉ stepStarters ∧ kind ≠ .kwWith ∧ kind ∈ printedFollow := by
      decide
    obtain ⟨name, noMessage, follows⟩ := ends _ follows
    obtain ⟨word, behind⟩ := Setting.stands_cons_word stands
    obtain ⟨tree, same, reads⟩ := exception.reads_name (Setting.stands_space.mp behind) name
    have fails : (do let _ ← take .kwWith; expr .expression : Program Expr).FailsAt setting stop :=
      (FailsAt.take noMessage).bind
    have parts : Reads setting raiseParts start (.done (some tree, none) stop) :=
      .andThen (reads_take word (by decide)) (.andThen (.attempt reads)
        (.andThen (reads_attempt_none fails) .yield))
    exact ⟨_, by rw [← same]; rfl, reads_expression_of_raise word parts follows⟩

/-- Behind a message stands what may stand behind the expression that the message is. -/
theorem ExprPieces.raiseMessage {follow : List Kind} {bare : Bool}
    (exception : NamePieces bare pieces shape) (message : ExprPieces follow more other)
    (less : follow ⊆ printedFollow) :
    ExprPieces follow (.word .kwRaise :: .space :: pieces ++ Piece.spaced .kwWith ++ more)
      (.node "RaiseExpression" [shape, other]) where
  block := (((Block.word (by decide)).space exception.block).spaced message.block (by decide)).mono
    (by decide) (List.Subset.refl _)
  reads := fun {setting start stop} stands follows => by
    obtain ⟨middle, front, with_, behind⟩ := stands.spaced
    obtain ⟨word, front⟩ := Setting.stands_cons_word front
    obtain ⟨tree, same, reads⟩ :=
      exception.reads_name (Setting.stands_space.mp front) (by rw [with_]; decide)
    obtain ⟨said, sameMessage, readsMessage⟩ := message.reads behind follows
    have parts : Reads setting raiseParts start (.done (some tree, some said) stop) :=
      .andThen (reads_take word (by decide)) (.andThen (.attempt reads) (.andThen
        (.attempt (.andThen (reads_take with_ (by decide)) readsMessage)) .yield))
    exact ⟨_, by rw [Expr.shape, Expr.optionShape, Expr.optionShape, same, sameMessage],
      reads_expression_of_raise word parts (less follows)⟩

end AdaExpressions
