import AdaExpressions.Proofs.Reading.Meets

/-!
# Every rule moves on

Rules have ranks. Before it takes a token, the body of a rule calls only rules of a lower rank, so
calls nest at one index no deeper than the highest rank; and a rule that does not fail takes a token.
-/

namespace AdaExpressions

/-- How deep calls may nest below a rule before a token is taken. -/
def ExprRule.rank : ExprRule → Nat
  | .expression => 13
  | .logicalChain => 12
  | .relation => 11
  | .simpleExpr => 10
  | .addingChain => 9
  | .unopTerm => 8
  | .term => 7
  | .factor => 6
  | .primary => 5
  | .oneOf .primary _ => 4
  | .name => 3
  | .directName => 2
  | .conditional => 2
  | .oneOf _ _ => 1
  | .attributeDesignator => 1
  | .discreteRange => 11
  | _ => 0

def Rule.rank : Rule → Nat
  | .expr rule => rule.rank
  | .step _ => 0
  | .choice => 14
  | .choiceList => 15
  | .aggregateAssociation => 16
  | .parameterAssociation => 14
  | .callSuffix => 15
  | .loopSpec => 0

theorem Rule.rank_lt (rule : Rule) : rule.rank < 17 := by
  cases rule with
  | expr rule =>
      cases rule with
      | oneOf table label => cases table <;> simp [rank, ExprRule.rank]
      | _ => decide
  | _ => simp [rank]

/-- Calls are allowed behind `start` or, at it, to rules of a rank below `rank`; each takes a token
and stops before the end of the buffer. -/
def advancing (setting : Setting) (start rank : Nat) : Contract where
  allows rule index :=
    (start < index ∧ index < setting.buffer.size) ∨ (index = start ∧ rule.rank < rank)
  ensures _ index _ stop := index < stop ∧ stop < setting.buffer.size

/-- The program takes a token if it does not fail, and calls nest below `rank` before it does. -/
def Program.Advances (setting : Setting) {α : Type} (program : Program α) (start rank : Nat) : Prop :=
  program.Meets setting (advancing setting start rank) start fun _ stop =>
    start < stop ∧ stop < setting.buffer.size

@[simp] theorem advancing_allows {setting : Setting} {start rank : Nat} {rule : Rule} {index : Nat} :
    (advancing setting start rank).allows rule index ↔
      (start < index ∧ index < setting.buffer.size) ∨ (index = start ∧ rule.rank < rank) :=
  Iff.rfl

@[simp] theorem advancing_ensures {setting : Setting} {start rank : Nat} {rule : Rule}
    {index stop : Nat} {value : rule.Node} :
    (advancing setting start rank).ensures rule index value stop ↔
      index < stop ∧ stop < setting.buffer.size :=
  Iff.rfl

namespace Grammar

variable {setting : Setting} {start rank : Nat}

open Program

/-- A repetition behind the start stays behind it. -/
theorem advances_iterate {σ : Type} {value : σ} {step : σ → Program (Option σ)} {index : Nat}
    {goal : σ → Nat → Prop} (after : start < index) (within : index < setting.buffer.size)
    (round : ∀ value index, start < index → index < setting.buffer.size →
      (step value).Meets setting (advancing setting start rank) index fun next stop =>
        index ≤ stop ∧ stop < setting.buffer.size ∧ (next.isSome → index < stop))
    (reached : ∀ value stop, start < stop → stop < setting.buffer.size → goal value stop) :
    (iterate value step).Meets setting (advancing setting start rank) index goal := by
  refine meets_iterate (fun _ index => start < index ∧ index < setting.buffer.size)
    ⟨after, within⟩ fun value index here => ?_
  refine Meets.mono (round value index here.1 here.2) fun next stop moved => ?_
  cases next with
  | none => exact reached value stop (Nat.lt_of_lt_of_le here.1 moved.1) moved.2.1
  | some next => exact ⟨moved.2.2 rfl, Nat.lt_of_lt_of_le here.1 moved.1, moved.2.1⟩

theorem advances_separated {α : Type} {separator : Kind} {item : Program α} {index : Nat}
    {goal : List α → Nat → Prop} (more : separator ≠ .eof)
    (first : item.Meets setting (advancing setting start rank) index fun _ stop =>
      start < stop ∧ stop < setting.buffer.size)
    (next : ∀ index, start < index → index < setting.buffer.size →
      item.Meets setting (advancing setting start rank) index fun _ stop =>
        index < stop ∧ stop < setting.buffer.size)
    (reached : ∀ value stop, start < stop → stop < setting.buffer.size → goal value stop) :
    (separated separator item).Meets setting (advancing setting start rank) index goal := by
  refine meets_separated more (fun _ index => start < index ∧ index < setting.buffer.size) first ?_
    fun items index here => reached items index here.1 here.2
  intro items index here _ within
  refine Meets.mono (next (index + 1) (by omega) within) fun value stop moved => ?_
  omega

theorem advances_leftChain {table : List Op} {first right : ExprRule} {index : Nat}
    (lower : (start < index ∧ index < setting.buffer.size) ∨ (index = start ∧ first.rank < rank))
    (after : start ≤ index) :
    (leftChain table first right).Meets setting (advancing setting start rank) index fun _ stop =>
      start < stop ∧ stop < setting.buffer.size := by
  refine meets_leftChain (fun _ index => start < index ∧ index < setting.buffer.size) ?_ ?_ ?_
  · exact ⟨lower, fun value stop _ moved => ⟨by have := moved.1; omega, moved.2⟩⟩
  · intro left index op here _ words
    have behind := words.operator
    exact ⟨.inl (by omega), fun operand stop _ moved =>
      ⟨by have := moved.1; omega, by have := moved.1; omega, moved.2⟩⟩
  · exact fun _ _ here => here

/-! ### Operators -/

theorem logicalChain_advances : logicalChain.Advances setting start 12 := by
  simp only [Program.Advances, logicalChain, meets_bind]
  refine ⟨.inr ⟨rfl, by decide⟩, fun operand stop _ moved => ?_⟩
  refine advances_iterate moved.1 moved.2 ?_ fun _ _ => And.intro
  rintro ⟨left, previous⟩ index after within
  simp only [logicalStep, meets_bind, meets_nextOperator]
  split
  · refine meets_attemptRight (fun words => ?_) (by simp [within])
    have behind := words.operator
    refine ⟨.inl (by omega), fun operand stop _ moved => ?_⟩
    simp only [advancing_ensures] at moved
    dsimp only
    split
    · simp
      omega
    · simp
      omega
  · simp [within]

theorem relation_advances : relation.Advances setting start 11 := by
  simp only [Program.Advances, relation, relationFrom, meets_bind]
  refine ⟨.inr ⟨rfl, by decide⟩, fun operand stop _ moved => ?_⟩
  refine advances_iterate moved.1 moved.2 ?_ fun value index after within => ?_
  · rintro ⟨compared, last⟩ index after within
    simp only [comparisonStep, meets_bind, meets_nextOperator]
    split
    · refine meets_attemptRight (fun words => ?_) (by simp [within])
      have behind := words.operator
      refine ⟨.inl (by omega), fun operand stop _ moved => ?_⟩
      simp only [advancing_ensures] at moved
      simp [forbidChained]
      omega
    · simp [within]
  · simp only [membershipTest, meets_bind, meets_nextOperator]
    split
    · refine meets_attemptRight (fun words => ?_) (by simp [after, within])
      have behind := words.operator
      refine ⟨.inl (by omega), fun choices stop _ moved => ?_⟩
      simp only [advancing_ensures] at moved
      simp [forbidChained]
      omega
    · exact ⟨after, within⟩

theorem unopTerm_advances : unopTerm.Advances setting start 8 := by
  refine meets_unary (fun op _ words => ?_) ⟨.inr ⟨rfl, by decide⟩, fun _ _ _ moved => moved⟩
  have behind := words.operator
  refine ⟨.inl behind, fun _ stop _ moved => ?_⟩
  simp only [advancing_ensures] at moved
  omega

theorem factor_advances : factor.Advances setting start 6 := by
  refine meets_unary (fun op _ words => ?_) ?_
  · have behind := words.operator
    refine ⟨.inl behind, fun _ stop _ moved => ?_⟩
    simp only [advancing_ensures] at moved
    omega
  · simp only [power, meets_bind, meets_nextOperator]
    refine ⟨.inr ⟨rfl, by decide⟩, fun base stop _ moved => ?_⟩
    simp only [advancing_ensures] at moved
    split
    · refine meets_attemptRight (fun words => ?_) moved
      have behind := words.operator
      refine ⟨.inl (by omega), fun _ stop _ moved => ?_⟩
      simp only [advancing_ensures] at moved
      simp
      omega
    · exact moved

/-! ### Names -/

theorem simpleName_advances (form : IdentForm) : (simpleName form).Advances setting start rank := by
  cases form <;> simp [Program.Advances, simpleName, ident]

theorem literal_advances (form : LiteralForm) {kind : Kind} (more : kind ≠ .eof) :
    (literal form kind).Advances setting start rank := by
  simp [Program.Advances, literal, more]

theorem dereference_advances : dereference.Advances setting start rank := by
  simp [Program.Advances, dereference]

theorem keywordAttribute_advances : keywordAttribute.Advances setting start rank := by
  simp [Program.Advances, keywordAttribute]

theorem attributeDesignator_advances : attributeDesignator.Advances setting start 1 := by
  simp [Program.Advances, attributeDesignator, Rule.rank, ExprRule.rank]

theorem name_advances : name.Advances setting start 3 := by
  simp only [Program.Advances, name, meets_bind]
  refine ⟨.inr ⟨rfl, by decide⟩, fun base stop _ moved => ?_⟩
  refine advances_iterate moved.1 moved.2 ?_ fun _ _ => And.intro
  intro base index after within
  simp [StepRule.ordered, meets_call (.step _), after, within]
  grind

theorem callStep_advances : callStep.Advances setting start 0 := by
  simp [Program.Advances, callStep, meets_call .callSuffix]
  grind

theorem selectionStep_advances : selectionStep.Advances setting start 0 := by
  simp [Program.Advances, selectionStep]
  grind

theorem attributeStep_advances : attributeStep.Advances setting start 0 := by
  simp [Program.Advances, attributeStep, meets_call .callSuffix]
  grind

theorem qualificationStep_advances : qualificationStep.Advances setting start 0 := by
  simp [Program.Advances, qualificationStep]
  grind

theorem staticName_advances : staticName.Advances setting start 0 := by
  simp only [Program.Advances, staticName, meets_bind]
  refine meets_staticPart.mpr ⟨fun _ within => ?_, fun _ within => ?_⟩
  all_goals
    refine advances_iterate (Nat.lt_succ_self start) within ?_ fun _ _ => And.intro
    intro base index after within
    simp [within]
    omega

/-! ### Associations and aggregates -/

theorem discreteRange_advances : discreteRange.Advances setting start 11 := by
  simp [Program.Advances, discreteRange, Rule.rank, ExprRule.rank]
  grind

theorem choice_advances : choice.Advances setting start 14 := by
  simp [Program.Advances, choice, Rule.rank, ExprRule.rank]

theorem choiceList_advances : choiceList.Advances setting start 15 := by
  refine advances_separated (by decide) ?_ ?_ fun _ _ => And.intro
  · exact ⟨.inr ⟨rfl, by decide⟩, fun _ _ _ moved => moved⟩
  · exact fun index after within => ⟨.inl ⟨after, within⟩, fun _ _ _ moved => moved⟩

theorem parameterAssociation_advances : parameterAssociation.Advances setting start 14 := by
  simp [Program.Advances, parameterAssociation, parameterDesignator, Rule.rank, ExprRule.rank]
  grind

theorem callSuffix_advances : callSuffix.Advances setting start 15 := by
  simp only [Program.Advances, callSuffix, meets_bind, meets_attempt]
  refine ⟨⟨.inr ⟨rfl, by decide⟩, fun _ _ _ moved => moved⟩, fun _ => ?_⟩
  refine advances_separated (by decide) ?_ ?_ fun _ _ => And.intro
  · exact ⟨.inr ⟨rfl, by decide⟩, fun _ _ _ moved => moved⟩
  · exact fun index after within => ⟨.inl ⟨after, within⟩, fun _ _ _ moved => moved⟩

theorem aggregateAssociation_advances : aggregateAssociation.Advances setting start 16 := by
  simp [Program.Advances, aggregateAssociation, aggregateDesignator, meets_call .choiceList,
    Rule.rank, ExprRule.rank]
  grind

theorem aggregateContent_meets {index : Nat} {goal : AggregateContent → Nat → Prop}
    (after : start < index) (within : index < setting.buffer.size)
    (reached : ∀ content stop, start < stop → stop < setting.buffer.size → goal content stop) :
    aggregateContent.Meets setting (advancing setting start rank) index goal := by
  simp only [aggregateContent, meets_bind, meets_peek, meets_ite]
  refine ⟨fun _ => ?_, fun _ => ?_⟩
  · simp
    exact fun _ _ _ within => reached _ _ (by omega) within
  · refine advances_separated (by decide) ?_ ?_ fun _ _ => reached _ _
    · exact ⟨.inl ⟨after, within⟩, fun _ _ _ moved => ⟨Nat.lt_trans after moved.1, moved.2⟩⟩
    · exact fun index after within => ⟨.inl ⟨after, within⟩, fun _ _ _ moved => moved⟩

theorem aggregate_advances : aggregate.Advances setting start 0 := by
  simp only [Program.Advances, aggregate, meets_bind, meets_extent, meets_parenthesized,
    meets_attempt]
  refine fun _ within => ⟨?_, fun _ => ?_⟩
  · refine ⟨.inl ⟨Nat.lt_succ_self start, within⟩, fun ancestor stop _ moved => ?_⟩
    simp only [advancing_ensures] at moved
    simp
    intro _ within
    refine aggregateContent_meets (by omega) within fun _ _ after within _ within => ?_
    simp [within]
    omega
  · refine aggregateContent_meets (Nat.lt_succ_self start) within fun _ _ after within _ within => ?_
    simp [within]
    omega

/-! ### Conditional expressions, allocators and raise expressions -/

theorem parenthesizedExpr_advances : parenthesizedExpr.Advances setting start 0 := by
  simp [Program.Advances, parenthesizedExpr]
  grind

theorem consequence_meets {index : Nat} {goal : Expr × Expr → Nat → Prop}
    (after : start < index) (within : index < setting.buffer.size)
    (reached : ∀ parts stop, index < stop → stop < setting.buffer.size → goal parts stop) :
    consequence.Meets setting (advancing setting start rank) index goal := by
  simp [consequence]
  grind

theorem ifExpr_advances : ifExpr.Advances setting start 0 := by
  simp only [Program.Advances, ifExpr, elsifParts, elsePart, meets_bind, meets_extent]
  rw [meets_take (by decide)]
  intro _ within
  refine consequence_meets (Nat.lt_succ_self start) within fun parts stop after within => ?_
  refine advances_iterate (by omega) within ?_ fun elsifs stop after within => ?_
  · intro elsifs index after within
    simp [within]
    intro _ _
    refine consequence_meets (by omega) (by omega) fun parts stop _ within => ?_
    simp [within]
    omega
  · simp [after, within]
    grind

theorem caseAlternative_meets {index : Nat} {goal : CaseAlternative → Nat → Prop}
    (after : start ≤ index)
    (reached : ∀ part stop, index < stop → stop < setting.buffer.size → goal part stop) :
    caseAlternative.Meets setting (advancing setting start rank) index goal := by
  simp [caseAlternative, meets_call .choiceList]
  grind

theorem caseExpr_advances : caseExpr.Advances setting start 0 := by
  simp only [Program.Advances, caseExpr, meets_bind, meets_extent]
  rw [meets_take (by decide)]
  refine fun _ within => ⟨.inl ⟨Nat.lt_succ_self start, within⟩, fun subject stop _ moved => ?_⟩
  simp only [advancing_ensures] at moved
  rw [meets_take (by decide)]
  intro _ within
  refine advances_separated (by decide) ?_ ?_ fun _ _ => And.intro
  · exact caseAlternative_meets (by omega) fun _ _ after within => ⟨by omega, within⟩
  · exact fun index after _ => caseAlternative_meets (by omega) fun _ _ => And.intro

theorem loopSpec_advances : loopSpec.Advances setting start 0 := by
  simp [Program.Advances, loopSpec, reversed, iterationSource, constrainedSubtype]
  grind

theorem quantified_advances : quantified.Advances setting start 0 := by
  simp [Program.Advances, quantified, meets_call .loopSpec]
  grind

theorem allocator_advances : allocator.Advances setting start 0 := by
  simp [Program.Advances, allocator]
  grind

theorem raiseExpr_advances : raiseExpr.Advances setting start 0 := by
  simp [Program.Advances, raiseExpr, raiseParts]
  grind

end Grammar

theorem ChoiceTable.program_advances {setting : Setting} {start rank : Nat} (table : ChoiceTable)
    (label : String) (lower : ∀ rule ∈ table.alternatives.map Prod.snd, rule.rank < rank) :
    (table.program label).Advances setting start rank := by
  cases table <;>
    simp [Program.Advances, program, alternatives, Rule.rank] at lower ⊢ <;> grind

/-- A rule that only calls another one. -/
theorem ExprRule.call_advances {setting : Setting} {start rank : Nat} (rule : ExprRule)
    (lower : rule.rank < rank) : (Program.expr rule).Advances setting start rank :=
  ⟨.inr ⟨rfl, lower⟩, fun _ _ _ moved => moved⟩

theorem ExprRule.body_advances {setting : Setting} {start : Nat} (rule : ExprRule) :
    rule.body.Advances setting start rule.rank := by
  cases rule with
  | expression => exact call_advances .logicalChain (by decide)
  | logicalChain => exact Grammar.logicalChain_advances
  | relation => exact Grammar.relation_advances
  | simpleExpr => exact call_advances .addingChain (by decide)
  | addingChain => exact Grammar.advances_leftChain (.inr ⟨rfl, by decide⟩) (Nat.le_refl start)
  | unopTerm => exact Grammar.unopTerm_advances
  | term => exact Grammar.advances_leftChain (.inr ⟨rfl, by decide⟩) (Nat.le_refl start)
  | factor => exact Grammar.factor_advances
  | primary => exact call_advances (.oneOf .primary "primary") (by simp [rank])
  | oneOf table label =>
      refine table.program_advances label ?_
      cases table <;> simp [ChoiceTable.alternatives, rank]
  | parenthesized => exact Grammar.parenthesizedExpr_advances
  | numberLiteral => exact Grammar.literal_advances .number (by decide)
  | nullLiteral => exact Grammar.literal_advances .null (by decide)
  | characterLiteral => exact Grammar.literal_advances .character (by decide)
  | stringLiteral => exact Grammar.simpleName_advances .operatorSymbol
  | identifier => exact Grammar.simpleName_advances .identifier
  | enumerationLiteral => exact Grammar.simpleName_advances .enumeration
  | name => exact Grammar.name_advances
  | directName => exact call_advances (.oneOf .directName "direct_name") (by simp [rank])
  | dereference => exact Grammar.dereference_advances
  | keywordAttribute => exact Grammar.keywordAttribute_advances
  | attributeDesignator => exact Grammar.attributeDesignator_advances
  | staticName => exact Grammar.staticName_advances
  | aggregate => exact Grammar.aggregate_advances
  | discreteRange => exact Grammar.discreteRange_advances
  | conditional => exact call_advances (.oneOf .conditional "conditional_expression") (by simp [rank])
  | ifExpr => exact Grammar.ifExpr_advances
  | caseExpr => exact Grammar.caseExpr_advances
  | quantified => exact Grammar.quantified_advances
  | allocator => exact Grammar.allocator_advances
  | raiseExpr => exact Grammar.raiseExpr_advances

/-- The body of a rule calls rules of lower rank until it has taken a token, and takes one. -/
theorem Rule.body_advances {setting : Setting} {start : Nat} (rule : Rule) :
    rule.body.Advances setting start rule.rank := by
  cases rule with
  | expr rule => exact rule.body_advances
  | step rule =>
      cases rule with
      | call => exact Grammar.callStep_advances
      | selection => exact Grammar.selectionStep_advances
      | attributeRef => exact Grammar.attributeStep_advances
      | qualification => exact Grammar.qualificationStep_advances
  | choice => exact Grammar.choice_advances
  | choiceList => exact Grammar.choiceList_advances
  | aggregateAssociation => exact Grammar.aggregateAssociation_advances
  | parameterAssociation => exact Grammar.parameterAssociation_advances
  | callSuffix => exact Grammar.callSuffix_advances
  | loopSpec => exact Grammar.loopSpec_advances

/-- Rules may be called anywhere; each takes a token and stops before the end of the buffer. -/
def moving (setting : Setting) : Contract where
  allows _ _ := True
  ensures _ index _ stop := index < stop ∧ stop < setting.buffer.size

/-- A rule that does not fail stops behind its start and before the end of the buffer. -/
theorem Rule.stop_of_reads {setting : Setting} {rule : Rule} {start stop : Nat} {value : rule.Node}
    (reads : Reads setting (.call rule) start (.done value stop)) :
    start < stop ∧ stop < setting.buffer.size := by
  have bodies (rule : Rule) (index : Nat) (_ : (moving setting).allows rule index) :
      rule.body.Meets setting (moving setting) index ((moving setting).ensures rule index) := by
    have advances : rule.body.Meets setting (advancing setting index rule.rank) index _ :=
      rule.body_advances
    refine advances.imp ?_ ?_ ?_
    · exact fun _ _ _ => trivial
    · exact fun _ _ _ _ => id
    · exact fun _ _ => id
  exact Program.Meets.of_bodies bodies
    ((Program.meets_call rule).mpr ⟨trivial, fun _ _ _ moved => moved⟩) reads

end AdaExpressions
