import AdaExpressions.Grammar.Body
import AdaExpressions.Proofs.Relabelling.Tree

/-!
# Rules do not look at labels

Two programs are relabelled alike if the second does on relabelled tokens what the first does on the
tokens, and yields its value changed in a given way. Every rule body is relabelled like itself, and
its node changes by being relabelled: a rule decides by kinds alone, and hands texts and places on
without looking at them.

Results: `Rule.body_relabels`, put together from one lemma for each combinator and each rule.
-/

namespace AdaExpressions

/-- The second program does on relabelled tokens what the first does, and its value is changed. -/
inductive Program.Relabels (labels : Relabelling) :
    {α : Type} → (α → α) → Program α → Program α → Prop
  | yield {α : Type} {f : α → α} {value : α} :
      Relabels labels f (.yield value) (.yield (f value))
  | andThen {α β : Type} {f : α → α} {g : β → β} {first again : Program α}
      {next follow : α → Program β} :
      Relabels labels f first again →
      (∀ value, Relabels labels g (next value) (follow (f value))) →
      Relabels labels g (.andThen first next) (.andThen again follow)
  | fail {α : Type} {f : α → α} (objection : Objection) :
      Relabels labels f (.fail objection) (.fail objection)
  | take (kind : Kind) : Relabels labels labels.token (.take kind) (.take kind)
  | peek : Relabels labels id .peek .peek
  | forbid (violation : Violation) (token : Token) :
      Relabels labels id (.forbid violation token) (.forbid violation (labels.token token))
  | attempt {α : Type} {f : α → α} {part again : Program α} :
      Relabels labels f part again →
      Relabels labels (Option.map f) (.attempt part) (.attempt again)
  | extent {α : Type} {f : α → α} {part again : Program α} :
      Relabels labels f part again →
      Relabels labels (Prod.map f labels.extent) (.extent part) (.extent again)
  | iterate {σ : Type} {f : σ → σ} (value : σ) {step again : σ → Program (Option σ)} :
      (∀ value, Relabels labels (Option.map f) (step value) (again (f value))) →
      Relabels labels f (.iterate value step) (.iterate (f value) again)
  | remember (key : MemoKey) (rule : ExprRule) :
      Relabels labels (Expr.relabel labels) (.remember key rule) (.remember key rule)
  | call (rule : Rule) : Relabels labels (rule.relabel labels) (.call rule) (.call rule)

namespace Program

variable {labels : Relabelling} {α β : Type} {f : α → α}

namespace Relabels

theorem yield_of {value changed : α} (same : f value = changed) :
    Relabels labels f (.yield value) (.yield changed) :=
  same ▸ .yield

theorem ite {condition : Prop} [Decidable condition] {first again other same : Program α}
    (holds : Relabels labels f first again) (fails : Relabels labels f other same) :
    Relabels labels f (if condition then first else other)
      (if condition then again else same) := by
  split
  · exact holds
  · exact fails

/-! ### Combinators -/

theorem expr (rule : ExprRule) :
    Relabels labels (Expr.relabel labels) (Program.expr rule) (Program.expr rule) :=
  .call (.expr rule)

theorem nextKind : Relabels labels id Program.nextKind Program.nextKind :=
  .andThen .peek fun _ => .yield

theorem takeOneOf (label : String) (kinds : List Kind) :
    Relabels labels labels.token (Program.takeOneOf label kinds)
      (Program.takeOneOf label kinds) :=
  .andThen nextKind fun _ => .ite (.take _) (.fail _)

theorem orElse {first second again other : Program α} (one : Relabels labels f first again)
    (two : Relabels labels f second other) :
    Relabels labels f (Program.orElse first second) (Program.orElse again other) := by
  refine .andThen (.attempt one) fun value => ?_
  cases value with
  | none => exact two
  | some value => exact .yield

theorem firstOf {parts : List (Program α)}
    (each : ∀ part ∈ parts, Relabels labels f part part) :
    Relabels labels (Option.map f) (Program.firstOf parts) (Program.firstOf parts) := by
  induction parts with
  | nil => exact .yield
  | cons part more ih =>
      refine .andThen (.attempt (each part List.mem_cons_self)) fun value => ?_
      cases value with
      | none => exact ih fun part member => each part (List.mem_cons_of_mem _ member)
      | some value => exact .yield

theorem separated (separator : Kind) {item again : Program α}
    (each : Relabels labels f item again) :
    Relabels labels (List.map f) (Program.separated separator item)
      (Program.separated separator again) := by
  refine .andThen each fun first => .andThen (f := List.map f) (.iterate [] fun items => ?_)
    fun rest => .yield_of ?_
  · refine .andThen nextKind fun kind => .ite ?_ .yield
    refine .andThen (.attempt (.andThen (.take separator) fun _ => each)) fun item => ?_
    cases item with
    | none => exact .yield
    | some item => exact .yield
  · rw [List.map_cons, List.map_reverse]

theorem parenthesized {inner again : Program α} (part : Relabels labels f inner again) :
    Relabels labels f (Program.parenthesized inner) (Program.parenthesized again) :=
  .andThen (.take _) fun _ => .andThen part fun _ => .andThen (.take _) fun _ => .yield

theorem nextOperator (table : List Op) :
    Relabels labels id (Program.nextOperator table) (Program.nextOperator table) :=
  .andThen .peek fun _ => .yield

theorem takeAll (kinds : List Kind) :
    Relabels labels id (Program.takeAll kinds) (Program.takeAll kinds) := by
  induction kinds with
  | nil => exact .yield
  | cons kind more ih => exact .andThen (.take kind) fun _ => ih

theorem takeOperator (op : Op) :
    Relabels labels labels.extent (Program.takeOperator op) (Program.takeOperator op) :=
  .andThen (.extent (takeAll op.words)) fun _ => .yield

theorem attemptRight (op : Op) {right again : Program α}
    (part : Relabels labels f right again) :
    Relabels labels (Option.map (Prod.map labels.extent f)) (Program.attemptRight op right)
      (Program.attemptRight op again) :=
  .attempt (.andThen (takeOperator op) fun _ => .andThen part fun _ => .yield)

theorem chainStep (table : List Op) (right : ExprRule) (left : Expr) :
    Relabels labels (Option.map (Expr.relabel labels)) (Program.chainStep table right left)
      (Program.chainStep table right (left.relabel labels)) := by
  refine .andThen (nextOperator table) fun op => ?_
  cases op with
  | none => exact .yield
  | some op =>
      refine .andThen (attemptRight op (expr right)) fun found => ?_
      cases found with
      | none => exact .yield
      | some found => exact .yield_of (congrArg some (Expr.relabel_ofBinary left op found.2))

theorem leftChain (table : List Op) (first right : ExprRule) :
    Relabels labels (Expr.relabel labels) (Program.leftChain table first right)
      (Program.leftChain table first right) :=
  .andThen (expr first) fun operand => .iterate operand (chainStep table right)

theorem unary (table : List Op) (operand : ExprRule) {plain : Program Expr}
    (without : Relabels labels (Expr.relabel labels) plain plain) :
    Relabels labels (Expr.relabel labels) (Program.unary table operand plain)
      (Program.unary table operand plain) := by
  refine .andThen (nextOperator table) fun op => ?_
  cases op with
  | none => exact without
  | some op =>
      exact .andThen (takeOperator op) fun words => .andThen (expr operand) fun operand =>
        .yield_of (Expr.relabel_ofUnary op words.span operand)

end Relabels

end Program

namespace Grammar

open Program

variable {labels : Relabelling}

/-! ### The ladder -/

theorem logicalStep_relabels (chain : Expr × Option Op) :
    Relabels labels (Option.map (Prod.map (Expr.relabel labels) id)) (logicalStep chain)
      (logicalStep (Prod.map (Expr.relabel labels) id chain)) := by
  obtain ⟨left, previous⟩ := chain
  refine .andThen (.nextOperator Op.logical) fun op => ?_
  cases op with
  | none => exact .yield
  | some op =>
      refine .andThen (.attemptRight op (.expr .relation)) fun found => ?_
      cases found with
      | none => exact .yield
      | some found =>
          have joined : some ((Expr.ofBinary left op found.2).relabel labels, some op) =
              some (.ofBinary (left.relabel labels) op (found.2.relabel labels), some op) :=
            congrArg (fun tree => some (tree, some op)) (Expr.relabel_ofBinary left op found.2)
          cases previous with
          | none => exact .yield_of joined
          | some previous =>
              exact .ite (.andThen (.forbid _ _) fun _ => .yield_of joined) (.yield_of joined)

theorem logicalChain_relabels :
    Relabels labels (Expr.relabel labels) logicalChain logicalChain :=
  .andThen (.expr .relation) fun operand =>
    .andThen (.iterate (operand, none) logicalStep_relabels) fun _ => .yield

theorem isEmpty_relabel (compared : Compared) :
    (compared.relabel labels).isEmpty = compared.isEmpty := by
  cases compared <;> rfl

theorem forbidChained_relabels (compared : Compared) (op : Op) (words : Extent) :
    Relabels labels id (forbidChained compared op words)
      (forbidChained (compared.relabel labels) op (labels.extent words)) := by
  unfold forbidChained
  rw [isEmpty_relabel]
  exact .ite .yield (.forbid _ _)

theorem comparisonStep_relabels (chain : Compared × Expr) :
    Relabels labels (Option.map (Prod.map (Compared.relabel labels) (Expr.relabel labels)))
      (comparisonStep chain)
      (comparisonStep (Prod.map (Compared.relabel labels) (Expr.relabel labels) chain)) := by
  obtain ⟨compared, last⟩ := chain
  refine .andThen (.nextOperator Op.relational) fun op => ?_
  cases op with
  | none => exact .yield
  | some op =>
      refine .andThen (.attemptRight op (.expr .simpleExpr)) fun found => ?_
      cases found with
      | none => exact .yield
      | some found =>
          exact .andThen (forbidChained_relabels compared op found.1) fun _ =>
            .yield

theorem membershipTest_relabels (compared : Compared) (tested : Expr) :
    Relabels labels (Expr.relabel labels) (membershipTest compared tested)
      (membershipTest (compared.relabel labels) (tested.relabel labels)) := by
  refine .andThen (.nextOperator Op.membership) fun op => ?_
  cases op with
  | none => exact .yield
  | some op =>
      refine .andThen (.attemptRight op (.call .choiceList)) fun found => ?_
      cases found with
      | none => exact .yield
      | some found =>
          obtain ⟨words, choices⟩ := found
          refine .andThen (forbidChained_relabels compared op words) fun _ => .yield_of ?_
          have last : labels.span ((choices.getLast?.map Choice.span).getD words.span) =
              (((choices.map (Choice.relabel labels)).getLast?.map Choice.span).getD
                (labels.extent words).span) := by
            rw [List.getLast?_map]
            cases choices.getLast? with
            | none => rfl
            | some choice => exact choice.span_relabel.symm
          simp only [Expr.relabel, Choice.relabelList_eq, labels.span_join, last]
          rw [Expr.span_relabel]
          rfl

theorem relation_relabels : Relabels labels (Expr.relabel labels) relation relation :=
  .andThen (.expr .simpleExpr) fun operand =>
    .andThen (.iterate ([], operand) comparisonStep_relabels) fun (compared, last) =>
      .andThen (membershipTest_relabels compared last) fun last =>
        .yield_of (relabel_nestCompared compared last)

theorem power_relabels : Relabels labels (Expr.relabel labels) power power := by
  refine .andThen (.expr .primary) fun base => .andThen (.nextOperator Op.exponent) fun op => ?_
  cases op with
  | none => exact .yield
  | some op =>
      refine .andThen (.attemptRight op (.expr .primary)) fun found => ?_
      cases found with
      | none => exact .yield
      | some found => exact .yield_of (Expr.relabel_ofBinary base op found.2)

/-! ### Names -/

theorem ident_relabels (form : IdentForm) :
    Relabels labels (Ident.relabel labels) (ident form) (ident form) :=
  .andThen (.take _) fun _ => .yield

theorem simpleName_relabels (form : IdentForm) :
    Relabels labels (Expr.relabel labels) (simpleName form) (simpleName form) :=
  .andThen (ident_relabels form) fun _ => .yield

theorem literal_relabels (form : LiteralForm) (kind : Kind) :
    Relabels labels (Expr.relabel labels) (literal form kind) (literal form kind) :=
  .andThen (.take kind) fun _ => .yield

theorem dereference_relabels : Relabels labels (Expr.relabel labels) dereference dereference :=
  .andThen (.take .kwAll) fun _ => .yield

theorem keywordAttribute_relabels :
    Relabels labels (Expr.relabel labels) keywordAttribute keywordAttribute :=
  .andThen (.takeOneOf _ _) fun _ => .yield

theorem attributeDesignator_relabels :
    Relabels labels (Expr.relabel labels) attributeDesignator attributeDesignator :=
  .orElse (.expr .keywordAttribute) (.expr .identifier)

theorem name_relabels : Relabels labels (Expr.relabel labels) name name := by
  refine .andThen (.expr .directName) fun base => .iterate base fun base => ?_
  have steps : ∀ part ∈ StepRule.ordered.map fun rule => call (.step rule),
      Relabels labels (NameStep.relabel labels) part part := by
    intro part member
    obtain ⟨rule, _, rfl⟩ := List.mem_map.mp member
    exact .call (.step rule)
  refine .andThen (.firstOf steps) fun step => .yield_of ?_
  cases step with
  | none => rfl
  | some step => exact congrArg some (NameStep.relabel_extend base step)

theorem callStep_relabels : Relabels labels (NameStep.relabel labels) callStep callStep :=
  .andThen (.take .openParen) fun _ => .andThen (.call .callSuffix) fun _ =>
    .andThen (.take .closeParen) fun _ => .yield

theorem selectionStep_relabels :
    Relabels labels (NameStep.relabel labels) selectionStep selectionStep :=
  .andThen (.take .dot) fun _ => .andThen (.expr .directName) fun _ =>
    .yield

theorem attributeStep_relabels :
    Relabels labels (NameStep.relabel labels) attributeStep attributeStep := by
  refine .andThen (.extent
    (f := Prod.map (Expr.relabel labels) (Option.map (CallSuffix.relabel labels))) ?_)
    fun _ => .yield
  exact .andThen (.take .tick) fun _ => .andThen (.expr .attributeDesignator) fun _ =>
    .andThen (.attempt (.parenthesized (.call .callSuffix))) fun _ => .yield

theorem qualificationStep_relabels :
    Relabels labels (NameStep.relabel labels) qualificationStep qualificationStep := by
  refine .andThen (.extent (f := Expr.relabel labels) ?_) fun _ => .yield
  exact .andThen (.take .tick) fun _ =>
    .orElse (.parenthesized (.expr .expression)) (.expr .aggregate)

theorem staticPart_relabels : Relabels labels (Ident.relabel labels) staticPart staticPart :=
  .andThen .nextKind fun _ => ident_relabels _

theorem staticName_relabels : Relabels labels (Expr.relabel labels) staticName staticName := by
  refine .andThen staticPart_relabels fun first =>
    .andThen (.iterate (f := Name.relabel labels) (.simple first) fun base => ?_)
      fun path => .yield
  refine .andThen .nextKind fun kind => .ite ?_ .yield
  refine .andThen (.attempt (.andThen (.take .dot) fun _ => staticPart_relabels)) fun found => ?_
  cases found with
  | none => exact .yield
  | some selector => exact .yield_of (congrArg some (Name.relabel_select base selector))

/-! ### Choices, associations and aggregates -/

theorem discreteRange_relabels :
    Relabels labels (Expr.relabel labels) discreteRange discreteRange :=
  .andThen (.expr .simpleExpr) fun low => .andThen (.take .dotDot) fun _ =>
    .andThen (.expr .simpleExpr) fun high => .yield_of (Expr.relabel_ofBinary low .range high)

theorem choice_relabels : Relabels labels (Choice.relabel labels) choice choice := by
  have parts : ∀ part ∈ [Program.expr .discreteRange, Program.expr .expression],
      Relabels labels (Expr.relabel labels) part part := by
    intro part member
    simp only [List.mem_cons, List.not_mem_nil, or_false] at member
    rcases member with rfl | rfl
    · exact .expr .discreteRange
    · exact .expr .expression
  refine .andThen (.firstOf parts) fun inner => ?_
  cases inner with
  | none =>
      exact .andThen .nextKind fun _ =>
        .ite (.andThen (.take .kwOthers) fun _ => .yield) (.fail _)
  | some inner => exact .yield

theorem choiceList_relabels :
    Relabels labels (List.map (Choice.relabel labels)) choiceList choiceList :=
  .separated .pipe (.call .choice)

theorem box_relabels : Relabels labels (Expr.relabel labels) box box :=
  .andThen (.take .diamond) fun _ => .yield

theorem parameterDesignator_relabels :
    Relabels labels (Designator.relabel labels) parameterDesignator parameterDesignator :=
  .andThen .nextKind fun _ => .ite
    (.andThen (.take .kwOthers) fun _ => .yield)
    (.andThen staticPart_relabels fun _ => .yield)

theorem parameterAssociation_relabels :
    Relabels labels (Association.relabel labels) parameterAssociation parameterAssociation := by
  refine .andThen (.attempt (f := Designator.relabel labels) ?_) fun designator =>
    .andThen (.orElse (.expr .expression) box_relabels) fun value =>
      .yield_of (Association.relabel_of designator value)
  exact .andThen parameterDesignator_relabels fun _ => .andThen (.take .arrow) fun _ => .yield

theorem callSuffix_relabels :
    Relabels labels (CallSuffix.relabel labels) callSuffix callSuffix := by
  refine .andThen (.attempt (.expr .discreteRange)) fun bounds => ?_
  cases bounds with
  | none =>
      refine .andThen (.separated .comma (.call .parameterAssociation)) fun parts => .yield_of ?_
      rw [CallSuffix.relabel, Association.relabelList_eq, span_associationsSpan]
      rfl
  | some bounds => exact .yield

theorem aggregateDesignator_relabels :
    Relabels labels (Designator.relabel labels) aggregateDesignator aggregateDesignator :=
  .andThen (.extent (.call .choiceList)) fun (choices, list) => .andThen (.take .arrow) fun _ =>
    .yield_of (Designator.relabel_ofChoices choices list.span)

theorem aggregateAssociation_relabels :
    Relabels labels (Association.relabel labels) aggregateAssociation aggregateAssociation :=
  .andThen (.attempt aggregateDesignator_relabels) fun designator =>
    .andThen .nextKind fun _ => .ite
      (.andThen box_relabels fun value => .yield_of (Association.relabel_of designator value))
      (.andThen (.expr .expression) fun value =>
        .yield_of (Association.relabel_of designator value))

theorem aggregateContent_relabels :
    Relabels labels (AggregateContent.relabel labels) aggregateContent aggregateContent := by
  refine .andThen .peek fun _ => .ite ?_ ?_
  · exact .andThen (.take .kwNull) fun null => .andThen (.take .kwRecord) fun record =>
      .yield
  · refine .andThen (.separated .comma (.call .aggregateAssociation)) fun parts => .yield_of ?_
    rw [AggregateContent.relabel, Association.relabelList_eq, span_associationsSpan]
    rfl

theorem aggregate_relabels : Relabels labels (Expr.relabel labels) aggregate aggregate := by
  refine .andThen (.extent (.parenthesized
    (f := Prod.map (Option.map (Expr.relabel labels)) (AggregateContent.relabel labels)) ?_))
    fun ((ancestor, content), whole) => .yield_of ?_
  · refine .andThen (.attempt (f := Expr.relabel labels) ?_) fun _ =>
      .andThen aggregateContent_relabels fun _ => .yield
    exact .andThen (.expr .expression) fun _ => .andThen (.take .kwWith) fun _ => .yield
  · rw [Expr.relabel, Expr.optionRelabel_eq]
    rfl

/-! ### Conditional expressions -/

theorem parenthesizedExpr_relabels :
    Relabels labels (Expr.relabel labels) parenthesizedExpr parenthesizedExpr :=
  .parenthesized (.orElse (.expr .conditional) (.expr .expression))

theorem consequence_relabels :
    Relabels labels (Prod.map (Expr.relabel labels) (Expr.relabel labels)) consequence
      consequence :=
  .andThen (.expr .expression) fun _ => .andThen (.take .kwThen) fun _ =>
    .andThen (.expr .expression) fun _ => .yield

theorem elsifParts_relabels :
    Relabels labels (List.map (ElsifPart.relabel labels)) elsifParts elsifParts := by
  refine .andThen (f := List.map (ElsifPart.relabel labels)) (.iterate [] fun parts => ?_)
    fun parts => .yield_of List.map_reverse
  refine .andThen .nextKind fun _ => .ite ?_ .yield
  refine .andThen (.take .kwElsif) fun word => .andThen consequence_relabels fun found =>
    .yield_of ?_
  obtain ⟨condition, consequence⟩ := found
  simp only [Option.map_some, List.map_cons, ElsifPart.relabel, labels.span_join,
    Expr.span_relabel]
  rfl

theorem elsePart_relabels :
    Relabels labels (Option.map (Expr.relabel labels)) elsePart elsePart :=
  .andThen .nextKind fun _ => .ite
    (.andThen (.take .kwElse) fun _ => .andThen (.expr .expression) fun _ =>
      .yield)
    .yield

theorem ifExpr_relabels : Relabels labels (Expr.relabel labels) ifExpr ifExpr := by
  refine .andThen (.extent (f := Prod.map (Expr.relabel labels) (Prod.map (Expr.relabel labels)
      (Prod.map (List.map (ElsifPart.relabel labels)) (Option.map (Expr.relabel labels))))) ?_)
    fun ((condition, consequence, elsifs, alternative), whole) => .yield_of ?_
  · exact .andThen (.take .kwIf) fun _ => .andThen consequence_relabels fun _ =>
      .andThen elsifParts_relabels fun _ => .andThen elsePart_relabels fun _ => .yield
  · rw [Expr.relabel, Expr.optionRelabel_eq, ElsifPart.relabelList_eq]
    rfl

theorem caseAlternative_relabels :
    Relabels labels (CaseAlternative.relabel labels) caseAlternative caseAlternative := by
  refine .andThen (.take .kwWhen) fun word => .andThen (.call .choiceList) fun choices =>
    .andThen (.take .arrow) fun _ => .andThen (.expr .expression) fun value => .yield_of ?_
  rw [CaseAlternative.relabel, Choice.relabelList_eq, labels.span_join, ← Expr.span_relabel]
  rfl

theorem caseExpr_relabels : Relabels labels (Expr.relabel labels) caseExpr caseExpr := by
  refine .andThen (.extent
    (f := Prod.map (Expr.relabel labels) (List.map (CaseAlternative.relabel labels))) ?_)
    fun ((subject, alternatives), whole) => .yield_of ?_
  · exact .andThen (.take .kwCase) fun _ => .andThen (.expr .expression) fun _ =>
      .andThen (.take .kwIs) fun _ =>
        .andThen (.separated .comma caseAlternative_relabels) fun _ => .yield
  · rw [Expr.relabel, CaseAlternative.relabelList_eq]
    rfl

/-! ### Quantified expressions -/

theorem iterationSource_relabels :
    Relabels labels (IterationSource.relabel labels) iterationSource iterationSource := by
  refine .orElse ?_ (.andThen (.orElse (.expr .discreteRange) (.expr .expression)) fun source =>
    .yield)
  refine .andThen (.expr .name) fun mark => .andThen (.take .kwRange) fun _ =>
    .andThen (.expr .discreteRange) fun constraint => .yield_of ?_
  rw [IterationSource.relabel, labels.span_join, ← Expr.span_relabel, ← Expr.span_relabel]

theorem reversed_relabels : Relabels labels id reversed reversed :=
  .andThen .nextKind fun _ => .ite (.andThen (.take .kwReverse) fun _ => .yield) .yield

theorem loopSpec_relabels : Relabels labels (LoopSpec.relabel labels) loopSpec loopSpec := by
  refine .andThen (.take .identifier) fun token => .andThen (.takeOneOf _ _) fun word =>
    .andThen reversed_relabels fun reversed => .andThen iterationSource_relabels fun source =>
      .yield_of ?_
  rw [LoopSpec.relabel, labels.span_join, ← IterationSource.span_relabel]
  rfl

theorem quantified_relabels : Relabels labels (Expr.relabel labels) quantified quantified := by
  refine .andThen (.take .kwFor) fun start => .andThen (.takeOneOf _ _) fun word =>
    .andThen (.call .loopSpec) fun loop => .andThen (.take .arrow) fun _ =>
      .andThen (.orElse (.expr .discreteRange) (.expr .expression)) fun body => .yield_of ?_
  rw [Expr.relabel, labels.span_join, ← Expr.span_relabel]
  rfl

/-! ### Allocators and raise expressions -/

theorem allocator_relabels : Relabels labels (Expr.relabel labels) allocator allocator := by
  refine .andThen (.take .kwNew) fun start =>
    .andThen (.attempt (.parenthesized (.expr .name))) fun subpool =>
      .andThen (.expr .name) fun designated => .yield_of ?_
  rw [Expr.relabel, Expr.optionRelabel_eq, labels.span_join, ← Expr.span_relabel]
  rfl

theorem raiseParts_relabels :
    Relabels labels (Prod.map (Option.map (Expr.relabel labels)) (Option.map (Expr.relabel labels)))
      raiseParts raiseParts := by
  refine .andThen (.take .kwRaise) fun _ => .andThen (.attempt (.expr .name)) fun exception => ?_
  cases exception with
  | none => exact .yield
  | some exception =>
      exact .andThen (.attempt (.andThen (.take .kwWith) fun _ => .expr .expression)) fun message =>
        .yield

theorem raiseExpr_relabels : Relabels labels (Expr.relabel labels) raiseExpr raiseExpr := by
  refine .andThen (.extent raiseParts_relabels) fun ((exception, message), whole) => .yield_of ?_
  rw [Expr.relabel, Expr.optionRelabel_eq, Expr.optionRelabel_eq]
  rfl

end Grammar

/-! ### Every rule -/

open Program Grammar

variable {labels : Relabelling}

theorem ChoiceTable.program_relabels (table : ChoiceTable) (label : String) :
    Relabels labels (Expr.relabel labels) (table.program label) (table.program label) := by
  have parts : ∀ part ∈ table.alternatives.map fun alternative => expr alternative.2,
      Relabels labels (Expr.relabel labels) part part := by
    intro part member
    obtain ⟨alternative, _, rfl⟩ := List.mem_map.mp member
    exact .expr alternative.2
  refine .andThen (.firstOf parts) fun value => ?_
  cases value with
  | none => exact .fail _
  | some value => exact .yield

theorem ExprRule.body_relabels (rule : ExprRule) :
    Relabels labels (Expr.relabel labels) rule.body rule.body := by
  cases rule with
  | expression => exact .remember _ _
  | logicalChain => exact logicalChain_relabels
  | relation => exact relation_relabels
  | simpleExpr => exact .remember _ _
  | addingChain => exact .leftChain _ _ _
  | unopTerm => exact .unary _ _ (.expr .term)
  | term => exact .leftChain _ _ _
  | factor => exact .unary _ _ power_relabels
  | primary => exact .remember _ _
  | oneOf table label => exact table.program_relabels label
  | parenthesized => exact parenthesizedExpr_relabels
  | numberLiteral => exact literal_relabels _ _
  | nullLiteral => exact literal_relabels _ _
  | characterLiteral => exact literal_relabels _ _
  | stringLiteral => exact simpleName_relabels _
  | identifier => exact simpleName_relabels _
  | enumerationLiteral => exact simpleName_relabels _
  | name => exact name_relabels
  | directName => exact .expr _
  | dereference => exact dereference_relabels
  | keywordAttribute => exact keywordAttribute_relabels
  | attributeDesignator => exact attributeDesignator_relabels
  | staticName => exact staticName_relabels
  | aggregate => exact aggregate_relabels
  | discreteRange => exact discreteRange_relabels
  | conditional => exact .expr _
  | ifExpr => exact ifExpr_relabels
  | caseExpr => exact caseExpr_relabels
  | quantified => exact quantified_relabels
  | allocator => exact allocator_relabels
  | raiseExpr => exact raiseExpr_relabels

theorem StepRule.body_relabels (rule : StepRule) :
    Relabels labels (NameStep.relabel labels) rule.body rule.body := by
  cases rule with
  | call => exact callStep_relabels
  | selection => exact selectionStep_relabels
  | attributeRef => exact attributeStep_relabels
  | qualification => exact qualificationStep_relabels

theorem Rule.body_relabels (rule : Rule) :
    Relabels labels (rule.relabel labels) rule.body rule.body := by
  cases rule with
  | expr rule => exact rule.body_relabels
  | step rule => exact rule.body_relabels
  | choice => exact choice_relabels
  | choiceList => exact choiceList_relabels
  | aggregateAssociation => exact aggregateAssociation_relabels
  | parameterAssociation => exact parameterAssociation_relabels
  | callSuffix => exact callSuffix_relabels
  | loopSpec => exact loopSpec_relabels

end AdaExpressions
