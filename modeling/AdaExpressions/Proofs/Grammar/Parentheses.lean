import AdaExpressions.Proofs.Grammar.Levels

/-!
# Parentheses around an expression

Between parentheses a conditional expression is tried before any other expression, and once it is
read the parenthesis has to close behind it. A conditional that is only the start of the expression,
as in `(if A then 2 ** 3 ** 4)`, leaves the parentheses to an aggregate of one component.

Result: `reads_primary_in_parentheses`.
-/

namespace AdaExpressions

/-- A conditional expression is read here and does not end at a closing parenthesis. -/
def Setting.ConditionalFallsShort (setting : Setting) (index : Nat) : Prop :=
  ∃ tree stop, Reads setting (.expr .conditional) index (.done tree stop) ∧
    setting.buffer.kind stop ≠ .closeParen

/-- The aggregate whose only component is an expression without a designator. -/
def Expr.soleComponent (inner : Expr) (span : Span) : Expr :=
  .aggregate none (.fields [.of none inner] (Grammar.associationsSpan [.of none inner])) span

theorem not_unary_of_conditional : ∀ kind ∈ ExprRule.conditional.starters,
    kind ∉ Op.starters (Op.unaryAdding ++ Op.highestUnary) := by
  decide

section

open Program Grammar

variable {setting : Setting} {start stop : Nat} {tree : Expr}

/-- A primary that starts as conditional expressions do is one. -/
theorem exists_conditional_of_primary
    (starts : setting.buffer.kind start ∈ ExprRule.conditional.starters)
    (reads : Reads setting (expr .primary) start (.done tree stop)) :
    ∃ first middle, Reads setting (expr .conditional) start (.done first middle) := by
  obtain ⟨rule, member, reads⟩ := exists_of_choice reads.readsBy.readsBy
  have only : ∀ rule ∈ ChoiceTable.primary.alternatives.map Prod.snd,
      ∀ kind ∈ ExprRule.conditional.starters, kind ∈ rule.starters → rule = .conditional := by decide
  cases only rule member _ starts (ExprRule.start_of_reads reads)
  exact ⟨tree, stop, reads⟩

theorem reads_primary_of_conditional
    (reads : Reads setting (expr .conditional) start (.done tree stop)) :
    Reads setting (expr .primary) start (.done tree stop) := by
  have starts := ExprRule.start_of_reads reads
  refine .call (.remember (reads_choice [.numberLiteral, .nullLiteral, .name, .allocator] rfl ?_ reads))
  have apart : ∀ rule ∈ [ExprRule.numberLiteral, .nullLiteral, .name, .allocator],
      ∀ kind ∈ ExprRule.conditional.starters, kind ∉ rule.starters := by decide
  exact fun rule member => rule.failsAt_of_start (apart rule member _ starts)

/-- Where an expression is read, a conditional expression fails or is a start of it. -/
theorem conditional_cases
    (reads : Reads setting (expr .expression) start (.done tree stop)) :
    (expr .conditional).FailsAt setting start ∨
      ∃ first middle, Reads setting (expr .conditional) start (.done first middle) := by
  by_cases starts : setting.buffer.kind start ∈ ExprRule.conditional.starters
  · obtain ⟨_, _, readsSimple⟩ := exists_simpleExpr_of_expression reads
    obtain ⟨_, _, readsPrimary⟩ :=
      exists_primary_of_simpleExpr (not_unary_of_conditional _ starts) readsSimple
    exact .inr (exists_conditional_of_primary starts readsPrimary)
  · exact .inl (ExprRule.conditional.failsAt_of_start starts)

/-- A conditional expression that is followed by the end of the expression is the expression. -/
theorem reads_expression_of_conditional
    (reads : Reads setting (expr .conditional) start (.done tree stop)) (ends : setting.EndsAt stop) :
    Reads setting (expr .expression) start (.done tree stop) := by
  have plain : setting.PlainAt start := not_unary_of_conditional _ (ExprRule.start_of_reads reads)
  exact reads_expression_of_primary plain (reads_primary_of_conditional reads) ends

/-- An expression alone between parentheses is read as a component of an aggregate. -/
theorem reads_aggregate_of_expression {inner : Expr}
    (opened : setting.buffer.kind start = .openParen)
    (reads : Reads setting (expr .expression) (start + 1) (.done inner stop))
    (closed : setting.buffer.kind stop = .closeParen)
    (notNull : setting.buffer.kind (start + 1) ≠ .kwNull)
    (notBox : setting.buffer.kind (start + 1) ≠ .diamond) :
    Reads setting (expr .aggregate) start
      (.done (.soleComponent inner (setting.extent start (stop + 1)).span) (stop + 1)) := by
  have choice : Reads setting (call .choice) (start + 1) (.done (.expr inner) stop) :=
    reads_choice_expression reads (by rw [closed]; decide)
  have choices : Reads setting (call .choiceList) (start + 1) (.done [.expr inner] stop) :=
    .call (reads_separated_one (by decide) choice (by rw [closed]; decide))
  have designator : aggregateDesignator.FailsAt setting (start + 1) :=
    .behind (.extent choices) (FailsAt.take (by rw [closed]; decide)).bind
  have association : Reads setting (call .aggregateAssociation) (start + 1)
      (.done (.of none inner) stop) := by
    refine .call (.andThen (reads_attempt_none designator) (.andThen reads_nextKind ?_))
    rw [if_neg notBox]
    exact .andThen reads .yield
  have content : Reads setting aggregateContent (start + 1)
      (.done (.fields [.of none inner] (associationsSpan [.of none inner])) stop) := by
    refine .andThen .peek ?_
    rw [if_neg fun same => notNull (congrArg Prod.fst same)]
    exact .andThen (reads_separated_one (by decide) association (by rw [closed]; decide)) .yield
  have ancestor : (do let ancestor ← expr .expression; let _ ← take .kwWith; return ancestor :
      Program Expr).FailsAt setting (start + 1) :=
    .behind reads (FailsAt.take (by rw [closed]; decide)).bind
  exact .call (.andThen (.extent (.andThen (reads_take opened (by decide))
    (.andThen (.andThen (reads_attempt_none ancestor) (.andThen content .yield))
      (.andThen (reads_take closed (by decide)) .yield)))) .yield)

theorem reads_primary_of_parenthesized (opened : setting.buffer.kind start = .openParen)
    (reads : Reads setting (expr .parenthesized) start (.done tree stop)) :
    Reads setting (expr .primary) start (.done tree stop) := by
  have apart : ∀ rule ∈ [ExprRule.numberLiteral, .nullLiteral, .name, .allocator, .conditional,
      .raiseExpr], Kind.openParen ∉ rule.starters := by decide
  exact .call (.remember (reads_choice _ rfl
    (fun rule member => rule.failsAt_of_start (opened ▸ apart rule member)) reads))

theorem reads_primary_of_aggregate (opened : setting.buffer.kind start = .openParen)
    (fails : (expr .parenthesized).FailsAt setting start)
    (reads : Reads setting (expr .aggregate) start (.done tree stop)) :
    Reads setting (expr .primary) start (.done tree stop) := by
  have apart : ∀ rule ∈ [ExprRule.numberLiteral, .nullLiteral, .name, .allocator, .conditional,
      .raiseExpr], Kind.openParen ∉ rule.starters := by decide
  refine .call (.remember (reads_choice [.numberLiteral, .nullLiteral, .name, .allocator,
    .conditional, .raiseExpr, .parenthesized] rfl (fun rule member => ?_) reads))
  rcases List.mem_append.mp (show rule ∈ [ExprRule.numberLiteral, .nullLiteral, .name, .allocator,
    .conditional, .raiseExpr] ++ [.parenthesized] from member) with before | last
  · exact rule.failsAt_of_start (opened ▸ apart rule before)
  · rwa [List.mem_singleton.mp last]

/-- An expression between parentheses is read as itself if no conditional expression falls short of
the closing parenthesis; else it is read as the only component of an aggregate. -/
theorem reads_primary_in_parentheses {inner : Expr}
    (opened : setting.buffer.kind start = .openParen)
    (reads : Reads setting (expr .expression) (start + 1) (.done inner stop))
    (closed : setting.buffer.kind stop = .closeParen) :
    (¬ setting.ConditionalFallsShort (start + 1) →
        Reads setting (expr .primary) start (.done inner (stop + 1))) ∧
      (setting.ConditionalFallsShort (start + 1) → Reads setting (expr .primary) start
        (.done (.soleComponent inner (setting.extent start (stop + 1)).span) (stop + 1))) := by
  constructor
  · intro reaches
    have content : Reads setting (orElse (expr .conditional) (expr .expression)) (start + 1)
        (.done inner stop) := by
      rcases conditional_cases reads with fails | ⟨first, middle, conditional⟩
      · exact reads_orElse fails reads
      · have reached : setting.buffer.kind middle = .closeParen :=
          Decidable.byContradiction fun short => reaches ⟨first, middle, conditional, short⟩
        have ends : setting.EndsAt middle := by
          rw [Setting.EndsAt, reached]
          decide
        -- The conditional is an expression by itself, and only one expression is read here.
        cases (reads_expression_of_conditional conditional ends).unique reads
        exact reads_orElse_first conditional
    exact reads_primary_of_parenthesized opened (.call (.andThen (reads_take opened (by decide))
      (.andThen content (.andThen (reads_take closed (by decide)) .yield))))
  · rintro ⟨first, middle, conditional, short⟩
    -- The conditional is committed to: no other content is tried once the closing one is missing.
    have fails : (expr .parenthesized).FailsAt setting start :=
      .call (.behind (reads_take opened (by decide))
        (.behind (reads_orElse_first conditional) (FailsAt.take short).bind))
    have starts := ExprRule.start_of_reads conditional
    have apart : ∀ kind ∈ ExprRule.conditional.starters, kind ≠ .kwNull ∧ kind ≠ .diamond := by
      decide
    exact reads_primary_of_aggregate opened fails
      (reads_aggregate_of_expression opened reads closed (apart _ starts).1 (apart _ starts).2)

end

end AdaExpressions
