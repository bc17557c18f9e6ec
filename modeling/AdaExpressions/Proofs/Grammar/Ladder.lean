import AdaExpressions.Proofs.Grammar.Soundness
import AdaExpressions.Proofs.Reading.Choosing

/-!
# The ladder by itself

Numbers, parentheses and operators make up a language of their own, in which the grammar can be
told without a choice that depends on order. `Ladder options phrase text expr` is that grammar; the
options enter as conditions on chains. On such tokens exactly the texts of the grammar are accepted.

One way, what is read is a phrase of the ladder: an aggregate is never read, because a parenthesized
expression is tried first and would have been read from the same tokens. The other way, a phrase is
read to its end wherever the token behind it can follow it.

Result: `parse_accepted_iff_ladder`.
-/

namespace AdaExpressions

/-- The kinds that numbers, parentheses and operators are written with. -/
def ladderKinds : List Kind :=
  [.number, .openParen, .closeParen, .kwAnd, .kwThen, .kwOr, .kwElse, .kwXor, .equals, .notEquals,
    .less, .lessEquals, .greater, .greaterEquals, .plus, .dash, .ampersand, .star, .slash, .kwRem,
    .pow, .kwAbs, .kwNot]

inductive LadderPhrase
  /-- A chain of relations, with the logical operators between them. -/
  | expr (operators : List Op)
  /-- Operands compared, with the number of comparisons. -/
  | relation (comparisons : Nat)
  | simple
  | term
  | factor
  | primary

inductive Ladder (options : Options) : LadderPhrase → List Token → Expr → Prop
  | relation {comparisons : Nat} {text : List Token} {expr : Expr} :
      Ladder options (.relation comparisons) text expr → Ladder options (.expr []) text expr
  | logical {operators : List Op} {comparisons : Nat} {op : Op} {text words more : List Token}
      {left right : Expr} :
      Ladder options (.expr operators) text left → op.Spells Op.logical words →
      Ladder options (.relation comparisons) more right →
      (options.rejectMixed = true → ∀ other ∈ operators, other = op) →
      Ladder options (.expr (operators ++ [op])) (text ++ words ++ more) (.ofBinary left op right)
  | simple {text : List Token} {expr : Expr} :
      Ladder options .simple text expr → Ladder options (.relation 0) text expr
  | comparison {comparisons : Nat} {op : Op} {text words more : List Token} {left right : Expr} :
      Ladder options .simple text left → op.Spells Op.relational words →
      Ladder options (.relation comparisons) more right →
      (options.rejectChained = true → comparisons = 0) →
      Ladder options (.relation (comparisons + 1)) (text ++ words ++ more) (.ofBinary left op right)
  | term {text : List Token} {expr : Expr} :
      Ladder options .term text expr → Ladder options .simple text expr
  | signed {op : Op} {words text : List Token} {operand : Expr} :
      op.Spells Op.unaryAdding words → Ladder options .term text operand →
      Ladder options .simple (words ++ text) (.ofUnary op (textSpan words) operand)
  | adding {op : Op} {text words more : List Token} {left right : Expr} :
      Ladder options .simple text left → op.Spells Op.adding words →
      Ladder options .term more right →
      Ladder options .simple (text ++ words ++ more) (.ofBinary left op right)
  | factor {text : List Token} {expr : Expr} :
      Ladder options .factor text expr → Ladder options .term text expr
  | multiplying {op : Op} {text words more : List Token} {left right : Expr} :
      Ladder options .term text left → op.Spells [.mult, .div, .rem] words →
      Ladder options .factor more right →
      Ladder options .term (text ++ words ++ more) (.ofBinary left op right)
  | primary {text : List Token} {expr : Expr} :
      Ladder options .primary text expr → Ladder options .factor text expr
  | highestUnary {op : Op} {words text : List Token} {operand : Expr} :
      op.Spells Op.highestUnary words → Ladder options .primary text operand →
      Ladder options .factor (words ++ text) (.ofUnary op (textSpan words) operand)
  | power {op : Op} {text words more : List Token} {base exponent : Expr} :
      Ladder options .primary text base → op.Spells Op.exponent words →
      Ladder options .primary more exponent →
      Ladder options .factor (text ++ words ++ more) (.ofBinary base op exponent)
  | number {token : Token} :
      token.kind = .number → Ladder options .primary [token] (.literal .number token)
  | parenthesized {operators : List Op} {opening closing : Token} {text : List Token} {expr : Expr} :
      opening.kind = .openParen → Ladder options (.expr operators) text expr →
      closing.kind = .closeParen → Ladder options .primary (opening :: text ++ [closing]) expr

/-! ### What is read is in the ladder -/

/-- A phrase of the ladder stands from `start` up to `stop`. -/
def Setting.LadderAt (setting : Setting) (phrase : LadderPhrase) (start : Nat) (expr : Expr)
    (stop : Nat) : Prop :=
  start < stop ∧ stop < setting.buffer.size ∧
    Ladder setting.options phrase (setting.slice start stop) expr

/-- The buffer holds nothing but numbers, parentheses and operators. -/
def Setting.IsLadder (setting : Setting) : Prop :=
  ∀ index, setting.buffer.kind index ∈ Kind.eof :: ladderKinds

/-- The rule starts with nothing that the ladder is written with. -/
def ExprRule.Foreign (rule : ExprRule) : Prop :=
  ∀ kind ∈ Kind.eof :: ladderKinds, kind ∉ rule.starters

instance (rule : ExprRule) : Decidable rule.Foreign :=
  inferInstanceAs (Decidable (∀ kind ∈ Kind.eof :: ladderKinds, kind ∉ rule.starters))

def ExprRule.ReadsLadder (setting : Setting) : ExprRule → Nat → Expr → Nat → Prop
  | .expression | .logicalChain => fun start expr stop =>
      ∃ operators, setting.LadderAt (.expr operators) start expr stop
  | .relation => fun start expr stop =>
      ∃ comparisons, setting.LadderAt (.relation comparisons) start expr stop
  | .simpleExpr | .addingChain | .unopTerm => setting.LadderAt .simple
  | .term => setting.LadderAt .term
  | .factor => setting.LadderAt .factor
  | .primary | .oneOf .primary _ | .parenthesized | .numberLiteral => setting.LadderAt .primary
  | .aggregate => fun start _ stop =>
      ∃ inner middle, setting.buffer.kind start = .openParen ∧
        Reads setting (.expr .expression) (start + 1) (.done inner middle) ∧
        setting.buffer.kind middle = .closeParen ∧ middle + 1 = stop
  | rule => fun start _ stop => ¬ rule.Foreign ∧ start < stop ∧ stop < setting.buffer.size

def Rule.ReadsLadder (setting : Setting) : (rule : Rule) → Nat → rule.Node → Nat → Prop
  | .expr rule => rule.ReadsLadder setting
  | .aggregateAssociation => fun start part stop =>
      Reads setting (.expr .expression) start (.done part.value stop)
  | _ => fun start _ stop => start < stop ∧ stop < setting.buffer.size

def laddering (setting : Setting) : Contract where
  allows _ _ := True
  ensures := Rule.ReadsLadder setting

section

open Program Grammar

variable {setting : Setting} {start stop : Nat}

theorem Setting.LadderAt.imp {phrase other : LadderPhrase} {expr same : Expr}
    (here : setting.LadderAt phrase start expr stop)
    (derives : ∀ {text : List Token}, Ladder setting.options phrase text expr →
      Ladder setting.options other text same) :
    setting.LadderAt other start same stop :=
  ⟨here.1, here.2.1, derives here.2.2⟩

/-- Both operands of an operator and its words between them are one phrase. -/
theorem Setting.ladderAt_binary {phrase left right : LadderPhrase} {table : List Op} {op : Op}
    {middle : Nat} {first second : Expr}
    (derives : ∀ {text words more : List Token}, Ladder setting.options left text first →
      op.Spells table words → Ladder setting.options right more second →
      Ladder setting.options phrase (text ++ words ++ more) (.ofBinary first op second))
    (before : setting.LadderAt left start first middle) (known : op ∈ table)
    (words : setting.WordsAt op.words middle)
    (after : setting.LadderAt right (middle + op.words.length) second stop) :
    setting.LadderAt phrase start (.ofBinary first op second) stop := by
  obtain ⟨moved, _, derivesFirst⟩ := before
  obtain ⟨movedOn, within, derivesSecond⟩ := after
  refine ⟨by omega, within, ?_⟩
  rw [← Setting.slice_append (middle + op.words.length) (by omega) (by omega),
    ← Setting.slice_append middle (by omega) (by omega)]
  exact derives derivesFirst (words.spells known) derivesSecond

theorem Setting.ladderAt_unary {phrase operand : LadderPhrase} {table : List Op} {op : Op}
    {value : Expr}
    (derives : ∀ {words text : List Token}, op.Spells table words →
      Ladder setting.options operand text value →
      Ladder setting.options phrase (words ++ text) (.ofUnary op (textSpan words) value))
    (known : op ∈ table) (words : setting.WordsAt op.words start)
    (after : setting.LadderAt operand (start + op.words.length) value stop) :
    setting.LadderAt phrase start
      (.ofUnary op (setting.extent start (start + op.words.length)).span value) stop := by
  obtain ⟨moved, within, derivesOperand⟩ := after
  refine ⟨by omega, within, ?_⟩
  rw [← Setting.slice_append (start + op.words.length) (by omega) (by omega),
    ← Setting.textSpan_slice words.operator.1]
  exact derives (words.spells known) derivesOperand

namespace Setting.IsLadder

variable (ladder : setting.IsLadder)

include ladder

/-- A kind that the ladder is not written with stands nowhere. -/
theorem absent {kind : Kind} (foreign : kind ∉ Kind.eof :: ladderKinds) (index : Nat) :
    setting.buffer.kind index ≠ kind :=
  fun found => foreign (found ▸ ladder index)

theorem take_meets {kind : Kind} (foreign : kind ∉ Kind.eof :: ladderKinds)
    {goal : Token → Nat → Prop} :
    (Program.take kind).Meets setting (laddering setting) start goal :=
  fun found => absurd found (ladder.absent foreign start)

theorem no_word {kinds : List Kind} (kind : Kind) (written : kind ∈ kinds)
    (foreign : kind ∉ Kind.eof :: ladderKinds) : ¬ setting.WordsAt kinds start := by
  intro words
  induction kinds generalizing start with
  | nil => cases written
  | cons first more ih =>
      rcases List.mem_cons.mp written with rfl | later
      · exact ladder.absent foreign start words.1
      · exact ih later words.2

theorem not_foreign_of_reads {rule : ExprRule} {expr_ : Expr}
    (reads : Reads setting (expr rule) start (.done expr_ stop)) : ¬ rule.Foreign := by
  intro foreign
  obtain ⟨failure, fails, _⟩ := rule.failsAt_of_start (foreign _ (ladder start))
  cases reads.unique fails

end Setting.IsLadder

namespace Grammar

theorem logicalChain_ladder :
    logicalChain.Meets setting (laddering setting) start
      (ExprRule.logicalChain.ReadsLadder setting start) := by
  simp only [logicalChain, meets_bind]
  refine ⟨trivial, fun operand stop _ here => ?_⟩
  obtain ⟨comparisons, here⟩ : ∃ comparisons, setting.LadderAt (.relation comparisons) start _ _ :=
    here
  refine meets_iterate (fun chain index => ∃ operators,
    setting.LadderAt (.expr operators) start chain.1 index ∧
      (setting.options.rejectMixed = true → ∀ other ∈ operators, chain.2 = some other))
    ⟨[], here.imp .relation, by simp⟩ ?_
  rintro ⟨left, previous⟩ middle ⟨operators, before, same⟩
  simp only [logicalStep, meets_bind, meets_nextOperator]
  split
  next op found =>
    refine meets_attemptRight (fun words => ⟨trivial, fun operand stop _ after => ?_⟩)
      ⟨operators, before⟩
    obtain ⟨comparisons, after⟩ : ∃ comparisons,
      setting.LadderAt (.relation comparisons) _ operand stop := after
    have moved : middle + op.words.length < stop := after.1
    have whole (one : setting.options.rejectMixed = true → ∀ other ∈ operators, other = op) :
        middle < stop ∧ ∃ operators, setting.LadderAt (.expr operators) start
          (.ofBinary left op operand) stop ∧
            (setting.options.rejectMixed = true → ∀ other ∈ operators, some op = some other) := by
      refine ⟨by omega, operators ++ [op], ?_, fun strict other member => ?_⟩
      · exact Setting.ladderAt_binary (fun text words more => .logical text words more one) before
          (Op.mem_of_next? found) words after
      · rcases List.mem_append.mp member with old | new
        · rw [one strict other old]
        · rw [List.mem_singleton.mp new]
    dsimp only
    cases previous with
    | none =>
        refine whole fun strict other member => ?_
        cases same strict other member
    | some previous =>
        simp only [meets_bind, meets_ite, meets_forbid, meets_pure]
        refine ⟨fun _ allowed => whole fun strict => ?_,
          fun matching => whole fun strict other member => ?_⟩
        · have allowed : setting.options.rejectMixed = false := allowed
          exact absurd (strict.symm.trans allowed) (by decide)
        · have matching : previous = op := by simpa using matching
          exact (Option.some.inj (same strict other member)).symm.trans matching
  next => exact ⟨operators, before⟩

/-- Operands are compared so far: from where the last one starts, any relation that the options
allow there completes them. -/
def LadderCompared (setting : Setting) (start : Nat) (state : Compared × Expr) (index : Nat) : Prop :=
  ∃ middle, start ≤ middle ∧ setting.LadderAt .simple middle state.2 index ∧
    ∀ comparisons relation stop, setting.LadderAt (.relation comparisons) middle relation stop →
      (setting.options.rejectChained = true → state.1 = [] ∨ comparisons = 0) →
      ∃ comparisons,
        setting.LadderAt (.relation comparisons) start (nestCompared state.1 relation) stop

theorem relation_ladder (ladder : setting.IsLadder) :
    relation.Meets setting (laddering setting) start
      (ExprRule.relation.ReadsLadder setting start) := by
  simp only [relation, relationFrom, meets_bind]
  refine ⟨trivial, fun operand stop _ here => ?_⟩
  refine meets_iterate (LadderCompared setting start)
    ⟨start, Nat.le_refl _, here, fun comparisons relation stop rest _ => ⟨comparisons, rest⟩⟩ ?_
  rintro ⟨compared, last⟩ index ⟨middle, ordered, before, completes⟩
  simp only [comparisonStep, meets_bind, meets_nextOperator]
  have ends : (membershipTest compared last).Meets setting (laddering setting) index
      fun relation stop =>
        ExprRule.relation.ReadsLadder setting start (nestCompared compared relation) stop := by
    have alone := completes 0 last index (before.imp .simple) fun _ => .inr rfl
    simp only [membershipTest, meets_bind, meets_nextOperator]
    split
    next op found =>
      refine meets_attemptRight (fun words => absurd words (ladder.no_word .kwIn ?_ ?_)) alone
      · have known := Op.mem_of_next? found
        simp only [Op.membership, List.mem_cons, List.not_mem_nil, or_false] at known
        rcases known with rfl | rfl <;> decide
      · decide
    next => exact alone
  split
  next op found =>
    refine meets_attemptRight (fun words => ⟨trivial, fun operand stop _ after => ?_⟩) ends
    have moved : index + op.words.length < stop := after.1
    have further (allowed : setting.options.rejectChained = true → compared = []) :
        index < stop ∧ LadderCompared setting start ((last, op) :: compared, operand) stop := by
      refine ⟨by omega, index + op.words.length, by have := before.1; omega, after, ?_⟩
      intro comparisons relation stop rest single
      refine completes (comparisons + 1) _ _ ?_ fun strict => .inl (allowed strict)
      refine Setting.ladderAt_binary (fun text words more => .comparison text words more ?_) before
        (Op.mem_of_next? found) words rest
      exact fun strict => (single strict).resolve_left (List.cons_ne_nil _ _)
    simp only [forbidChained, meets_ite, meets_bind, meets_pure, meets_forbid]
    refine ⟨fun first => further fun _ => List.isEmpty_iff.mp first,
      fun _ allowed => further fun strict => ?_⟩
    have allowed : setting.options.rejectChained = false := allowed
    exact absurd (strict.symm.trans allowed) (by decide)
  next => exact ends

theorem leftChain_ladder (ladder : setting.IsLadder) {table : List Op} {first right : ExprRule}
    {phrase other : LadderPhrase}
    (alone : ∀ start expr_ stop, first.ReadsLadder setting start expr_ stop →
      setting.LadderAt phrase start expr_ stop)
    (operand : ∀ start expr_ stop, right.ReadsLadder setting start expr_ stop →
      setting.LadderAt other start expr_ stop)
    (derives : ∀ {op : Op} {text words more : List Token} {first second : Expr},
      Ladder setting.options phrase text first → op.Spells table words →
      (∀ kind ∈ op.words, kind ∈ ladderKinds) → Ladder setting.options other more second →
      Ladder setting.options phrase (text ++ words ++ more) (.ofBinary first op second)) :
    (leftChain table first right).Meets setting (laddering setting) start
      (setting.LadderAt phrase start) := by
  refine meets_leftChain (setting.LadderAt phrase start) ?_ ?_ fun _ _ here => here
  · exact ⟨trivial, fun operand stop _ here => alone _ _ _ here⟩
  · intro left middle op before known words
    refine ⟨trivial, fun expr_ stop _ after => ?_⟩
    have after := operand _ _ _ after
    have moved : middle + op.words.length < stop := after.1
    refine ⟨by omega, Setting.ladderAt_binary ?_ before known words after⟩
    refine fun text spells more => derives text spells (fun kind written => ?_) more
    refine Decidable.byContradiction fun foreign => ladder.no_word kind written ?_ words
    rw [List.mem_cons, not_or]
    exact ⟨fun closed => op.eof_not_mem_words (closed ▸ written), foreign⟩

theorem unopTerm_ladder :
    unopTerm.Meets setting (laddering setting) start (setting.LadderAt .simple start) := by
  refine meets_unary (fun op known words => ⟨trivial, fun operand stop _ after => ?_⟩) ?_
  · exact Setting.ladderAt_unary .signed known words after
  · exact ⟨trivial, fun operand stop _ here => Setting.LadderAt.imp here .term⟩

theorem factor_ladder :
    factor.Meets setting (laddering setting) start (setting.LadderAt .factor start) := by
  refine meets_unary (fun op known words => ⟨trivial, fun operand stop _ after => ?_⟩) ?_
  · exact Setting.ladderAt_unary .highestUnary known words after
  · simp only [power, meets_bind, meets_nextOperator]
    refine ⟨trivial, fun base middle _ before => ?_⟩
    have alone : setting.LadderAt .factor start base middle :=
      Setting.LadderAt.imp before .primary
    dsimp only
    split
    next op found =>
      refine meets_attemptRight (fun words => ⟨trivial, fun operand stop _ after => ?_⟩) alone
      exact Setting.ladderAt_binary .power before (Op.mem_of_next? found) words after
    next => exact alone

theorem numberLiteral_ladder :
    (literal .number .number).Meets setting (laddering setting) start
      (setting.LadderAt .primary start) := by
  simp only [literal, meets_bind]
  refine (meets_take (by decide)).mpr fun found within => ⟨Nat.lt_succ_self start, within, ?_⟩
  rw [Setting.slice_succ]
  exact .number found

theorem parenthesizedExpr_ladder :
    parenthesizedExpr.Meets setting (laddering setting) start
      (setting.LadderAt .primary start) := by
  simp only [parenthesizedExpr, meets_parenthesized]
  refine fun opened _ => ⟨⟨trivial, fun inner stop _ here => ?_⟩,
    fun _ => ⟨trivial, fun inner stop _ here closed within => ?_⟩⟩
  · exact absurd (by decide) here.1
  · obtain ⟨operators, moved, _, derives⟩ : ∃ operators,
      setting.LadderAt (.expr operators) (start + 1) inner stop := here
    refine ⟨by omega, within, ?_⟩
    rw [Setting.slice_enclosed (by omega)]
    exact .parenthesized opened derives closed

theorem aggregateAssociation_ladder (ladder : setting.IsLadder) :
    aggregateAssociation.Meets setting (laddering setting) start
      (Rule.aggregateAssociation.ReadsLadder setting start) := by
  simp only [aggregateAssociation, aggregateDesignator, meets_bind, meets_attempt, meets_extent,
    meets_nextKind, meets_ite]
  refine ⟨⟨trivial, fun choices middle _ _ => ladder.take_meets (by decide)⟩,
    fun _ => ⟨fun _ => ladder.take_meets (by decide), fun _ => ?_⟩⟩
  exact ⟨trivial, fun value stop reads _ => reads⟩

/-- An aggregate can only be one expression in parentheses. -/
theorem aggregate_ladder (ladder : setting.IsLadder) :
    aggregate.Meets setting (laddering setting) start
      (ExprRule.aggregate.ReadsLadder setting start) := by
  simp only [aggregate, aggregateContent, meets_bind, meets_extent, meets_parenthesized,
    meets_attempt, meets_peek, meets_ite, meets_pure]
  refine fun opened _ => ⟨⟨trivial, fun _ _ _ _ => ladder.take_meets (by decide)⟩,
    fun _ => ⟨fun _ => ladder.take_meets (by decide), fun _ => ?_⟩⟩
  refine meets_separated (by decide) (fun _ stop => ∃ inner,
    Reads setting (.expr .expression) (start + 1) (.done inner stop)) ?_ ?_ ?_
  · exact ⟨trivial, fun part stop _ reads => ⟨part.value, reads⟩⟩
  · exact fun _ index _ found => absurd found (ladder.absent (by decide) index)
  · rintro _ stop ⟨inner, reads⟩ closed _
    exact ⟨inner, stop, opened, reads, closed, rfl⟩

/-- What could be an aggregate has been read as an expression in parentheses. -/
theorem primary_ladder (ladder : setting.IsLadder) {label : String} :
    (ChoiceTable.primary.program label).Meets setting (laddering setting) start
      (setting.LadderAt .primary start) := by
  have foreign {rule : ExprRule} {expr_ : Expr} {stop : Nat} {goal : Prop} (is : rule.Foreign)
      (reads : Reads setting (expr rule) start (.done expr_ stop)) : goal :=
    absurd is (ladder.not_foreign_of_reads reads)
  simp only [ChoiceTable.program, ChoiceTable.alternatives, List.map_cons, List.map_nil,
    meets_bind, meets_firstOf_cons, meets_firstOf_nil, meets_pure, meets_fail, implies_true, and_true]
  refine ⟨⟨trivial, fun _ _ _ => id⟩, fun _ => ⟨⟨trivial, fun _ _ reads _ => foreign (by decide) reads⟩,
    fun _ => ⟨⟨trivial, fun _ _ reads _ => foreign (by decide) reads⟩,
    fun _ => ⟨⟨trivial, fun _ _ reads _ => foreign (by decide) reads⟩,
    fun _ => ⟨⟨trivial, fun _ _ reads _ => foreign (by decide) reads⟩,
    fun _ => ⟨⟨trivial, fun _ _ reads _ => foreign (by decide) reads⟩,
    fun _ => ⟨⟨trivial, fun _ _ _ => id⟩, fun fails => ⟨trivial, fun _ _ _ again => ?_⟩⟩⟩⟩⟩⟩⟩⟩
  obtain ⟨inner, middle, opened, reads, closed, rfl⟩ := again
  obtain ⟨failure, fails, _⟩ := fails
  have conditional : (expr .conditional).FailsAt setting (start + 1) :=
    ExprRule.failsAt_of_start .conditional
      ((show ExprRule.conditional.Foreign by decide) _ (ladder (start + 1)))
  have parenthesized : Reads setting (expr .parenthesized) start (.done inner (middle + 1)) :=
    .call (.andThen (reads_take opened (by decide))
      (.andThen (reads_orElse conditional reads)
        (.andThen (reads_take closed (by decide)) .yield)))
  cases fails.unique parenthesized

end Grammar

/-- A rule of the ladder reads a phrase of the ladder; any other reads what is not foreign to it. -/
theorem ExprRule.ladder_sound (ladder : setting.IsLadder) (rule : ExprRule) (index : Nat) :
    rule.body.Meets setting (laddering setting) index (rule.ReadsLadder setting index) ∨
      ∀ expr_ stop, Reads setting (expr rule) index (.done expr_ stop) →
        rule.ReadsLadder setting index expr_ stop := by
  have other {expr_ : Expr} {stop : Nat} (reads : Reads setting (expr rule) index (.done expr_ stop)) :
      ¬ rule.Foreign ∧ index < stop ∧ stop < setting.buffer.size :=
    ⟨ladder.not_foreign_of_reads reads, Rule.stop_of_reads reads⟩
  have multiplying {op : Op} (known : op ∈ Op.multiplying)
      (written : ∀ kind ∈ op.words, kind ∈ ladderKinds) : op ∈ [Op.mult, .div, .rem] := by
    revert known written
    cases op <;> decide
  cases rule with
  | expression => exact .inl ⟨trivial, fun _ _ _ => id⟩
  | logicalChain => exact .inl logicalChain_ladder
  | relation => exact .inl (relation_ladder ladder)
  | simpleExpr => exact .inl ⟨trivial, fun _ _ _ => id⟩
  | addingChain =>
      exact .inl (leftChain_ladder ladder (fun _ _ _ => id) (fun _ _ _ => id)
        fun text words _ more => .adding text words more)
  | unopTerm => exact .inl unopTerm_ladder
  | term =>
      exact .inl (leftChain_ladder ladder (fun _ _ _ here => here.imp .factor) (fun _ _ _ => id)
        fun text words written more =>
          .multiplying text ⟨multiplying words.1 written, words.2⟩ more)
  | factor => exact .inl factor_ladder
  | primary => exact .inl ⟨trivial, fun _ _ _ => id⟩
  | oneOf table label =>
      cases table with
      | primary => exact .inl (primary_ladder ladder)
      | _ => exact .inr fun _ _ => other
  | parenthesized => exact .inl parenthesizedExpr_ladder
  | numberLiteral => exact .inl numberLiteral_ladder
  | aggregate => exact .inl (aggregate_ladder ladder)
  | _ => exact .inr fun _ _ => other

theorem Rule.ladder_sound (ladder : setting.IsLadder) (rule : Rule) (index : Nat) :
    rule.body.Meets setting (laddering setting) index (rule.ReadsLadder setting index) ∨
      ∀ value stop, Reads setting (.call rule) index (.done value stop) →
        rule.ReadsLadder setting index value stop := by
  cases rule with
  | expr rule => exact rule.ladder_sound ladder index
  | aggregateAssociation => exact .inl (aggregateAssociation_ladder ladder)
  | _ => exact .inr fun _ _ reads => Rule.stop_of_reads reads

/-- An expression that is read is an expression of the ladder. -/
theorem Setting.IsLadder.ladderAt_of_reads (ladder : setting.IsLadder) {expr_ : Expr}
    (reads : Reads setting (expr .expression) start (.done expr_ stop)) :
    ∃ operators, setting.LadderAt (.expr operators) start expr_ stop :=
  Program.Meets.of_sound (fun rule index _ => rule.ladder_sound ladder index)
    ((Program.meets_call (.expr .expression)).mpr ⟨trivial, fun _ _ _ => id⟩) reads

end

/-! ### What is in the ladder is read -/

/-- The text starts with a token of one of the kinds. -/
def StartsWith (kinds : List Kind) (text : List Token) : Prop :=
  ∃ first more, text = first :: more ∧ first.kind ∈ kinds

namespace StartsWith

variable {kinds other : List Kind} {text : List Token}

theorem append (starts : StartsWith kinds text) (more : List Token) :
    StartsWith kinds (text ++ more) :=
  let ⟨first, rest, here, known⟩ := starts
  ⟨first, rest ++ more, by rw [here, List.cons_append], known⟩

theorem mono (starts : StartsWith kinds text) (subset : kinds ⊆ other) : StartsWith other text :=
  let ⟨first, rest, here, known⟩ := starts
  ⟨first, rest, here, subset known⟩

theorem of_spells {table : List Op} {op : Op} (spells : op.Spells table text) :
    StartsWith (Op.starters table) text := by
  obtain ⟨known, written⟩ := spells
  cases text with
  | nil => exact absurd written.symm op.words_ne_nil
  | cons first more =>
      refine ⟨first, more, rfl, List.mem_filterMap.mpr ⟨op, known, ?_⟩⟩
      rw [← written]
      rfl

theorem kind {setting : Setting} {index : Nat} (starts : StartsWith kinds text)
    (stands : setting.TextAt text index) : setting.buffer.kind index ∈ kinds := by
  obtain ⟨first, rest, rfl, known⟩ := starts
  rwa [stands.kind]

end StartsWith

/-- The kinds a phrase can start with. -/
def LadderPhrase.starters : LadderPhrase → List Kind
  | .expr _ | .relation _ | .simple => [.plus, .dash, .kwAbs, .kwNot, .number, .openParen]
  | .term | .factor => [.kwAbs, .kwNot, .number, .openParen]
  | .primary => [.number, .openParen]

/-- The kinds that can stand behind a whole expression. -/
def exprFollow : List Kind :=
  [.closeParen, .eof]

def relationFollow : List Kind :=
  [.kwAnd, .kwOr, .kwXor] ++ exprFollow

def simpleFollow : List Kind :=
  [.equals, .notEquals, .less, .lessEquals, .greater, .greaterEquals] ++ relationFollow

def termFollow : List Kind :=
  [.plus, .dash, .ampersand] ++ simpleFollow

def factorFollow : List Kind :=
  [.star, .slash, .kwRem] ++ termFollow

theorem Ladder.starts {options : Options} {phrase : LadderPhrase} {text : List Token} {expr : Expr}
    (ladder : Ladder options phrase text expr) : StartsWith phrase.starters text := by
  induction ladder with
  | relation _ ih | simple _ ih | factor _ ih => exact ih
  | logical _ _ _ _ ih _ | comparison _ _ _ _ ih _ | adding _ _ _ ih _ | multiplying _ _ _ ih _ =>
      exact (ih.append _).append _
  | term _ ih | primary _ ih => exact ih.mono (by decide)
  | signed spells _ _ | highestUnary spells _ _ =>
      exact (StartsWith.of_spells spells).append _ |>.mono (by decide)
  | power _ _ _ ih _ => exact ((ih.append _).append _).mono (by decide)
  | number found => exact ⟨_, _, rfl, by simp [LadderPhrase.starters, found]⟩
  | parenthesized opened _ _ _ => exact ⟨_, _, rfl, by simp [LadderPhrase.starters, opened]⟩

section

open Program Grammar

variable {setting : Setting} {start : Nat}

/-- The text of a phrase that stands in the buffer is what is between its ends. -/
theorem Setting.TextAt.slice {text : List Token} (stands : setting.TextAt text start) :
    setting.slice start (start + text.length) = text := by
  induction text generalizing start with
  | nil => exact Setting.slice_self
  | cons token more ih =>
      rw [Setting.slice_cons (by simp), stands.1, List.length_cons,
        show start + (more.length + 1) = start + 1 + more.length by omega, ih stands.2]

theorem Setting.TextAt.textSpan {text : List Token} (stands : setting.TextAt text start)
    (more : text ≠ []) :
    AdaExpressions.textSpan text = (setting.extent start (start + text.length)).span := by
  have span : AdaExpressions.textSpan (setting.slice start (start + text.length)) = _ :=
    Setting.textSpan_slice (Nat.lt_add_of_pos_right (List.length_pos_iff.mpr more))
  rwa [stands.slice] at span

theorem Op.Spells.wordsAt {table : List Op} {op : Op} {words : List Token}
    (spells : op.Spells table words) (stands : setting.TextAt words start) :
    setting.WordsAt op.words start :=
  spells.2 ▸ stands.wordsAt

theorem Op.Spells.length {table : List Op} {op : Op} {words : List Token}
    (spells : op.Spells table words) : op.words.length = words.length := by
  rw [← spells.2, List.length_map]

theorem Op.Spells.ne_nil {table : List Op} {op : Op} {words : List Token}
    (spells : op.Spells table words) : words ≠ [] := fun none_ =>
  op.words_ne_nil (by rw [← spells.2, none_, List.map_nil])

/-- What a phrase of the ladder is read as between two indices. A chain is told by how its reading
goes on behind the operands it has so far. -/
def LadderIsRead (setting : Setting) : LadderPhrase → Expr → (start stop : Nat) → Prop
  | .expr operators, expr_, start, stop =>
      setting.buffer.kind stop ∈ relationFollow → ∀ reading,
        Reads setting (iterate (expr_, operators.getLast?) logicalStep) stop reading →
        Reads setting (expr .relation >>= fun operand => iterate (operand, none) logicalStep) start
          reading
  | .relation comparisons, expr_, start, stop =>
      setting.buffer.kind stop ∈ relationFollow → ∀ compared,
        (setting.options.rejectChained = true → compared = [] ∨ comparisons = 0) →
        Reads setting (relationFrom compared) start (.done (nestCompared compared expr_) stop)
  | .simple, expr_, start, stop =>
      setting.buffer.kind stop ∈ termFollow → ∀ reading,
        Reads setting (iterate expr_ (chainStep Op.adding .term)) stop reading →
        Reads setting addingChain start reading
  | .term, expr_, start, stop =>
      setting.buffer.kind stop ∈ factorFollow → ∀ reading,
        Reads setting (iterate expr_ (chainStep Op.multiplying .factor)) stop reading →
        Reads setting Grammar.term start reading
  | .factor, expr_, start, stop =>
      setting.buffer.kind stop ∈ factorFollow →
        Reads setting (expr .factor) start (.done expr_ stop)
  | .primary, expr_, start, stop => Reads setting (expr .primary) start (.done expr_ stop)

namespace LadderIsRead

variable {expr_ : Expr} {stop : Nat}

/-! At a token that can follow a chain, its reading ends. -/

theorem expression {operators : List Op}
    (isRead : LadderIsRead setting (.expr operators) expr_ start stop)
    (follows : setting.buffer.kind stop ∈ exprFollow) :
    Reads setting (expr .expression) start (.done expr_ stop) := by
  have none_ : ∀ kind ∈ exprFollow, kind ∉ Op.starters Op.logical := by decide
  have stops : Reads setting (logicalStep (expr_, operators.getLast?)) stop (.done none stop) := by
    refine .andThen reads_nextOperator ?_
    rw [next?_eq_none (none_ _ follows)]
    exact .yield
  have chain := isRead (List.mem_append_right _ follows) _ (.iterateStop stops)
  obtain ⟨operand, middle, reads, rest⟩ := reads_bind_done.mp chain
  exact .call (.remember (.call (.andThen reads (.andThen rest .yield))))

theorem relation {comparisons : Nat}
    (isRead : LadderIsRead setting (.relation comparisons) expr_ start stop)
    (follows : setting.buffer.kind stop ∈ relationFollow) :
    Reads setting (expr .relation) start (.done expr_ stop) :=
  .call (isRead follows [] fun _ => .inl rfl)

theorem simpleExpr (isRead : LadderIsRead setting .simple expr_ start stop)
    (follows : setting.buffer.kind stop ∈ simpleFollow) :
    Reads setting (expr .simpleExpr) start (.done expr_ stop) := by
  have none_ : ∀ kind ∈ simpleFollow, kind ∉ Op.starters Op.adding := by decide
  have chain := isRead (List.mem_append_right _ follows) _
    (.iterateStop (reads_chainStep_none (none_ _ follows)))
  exact .call (.remember (.call chain))

theorem term (isRead : LadderIsRead setting .term expr_ start stop)
    (follows : setting.buffer.kind stop ∈ termFollow) :
    Reads setting (expr .term) start (.done expr_ stop) := by
  have none_ : ∀ kind ∈ termFollow, kind ∉ Op.starters Op.multiplying := by decide
  exact .call (isRead (List.mem_append_right _ follows) _
    (.iterateStop (reads_chainStep_none (none_ _ follows))))

end LadderIsRead

/-- An operator and the relation behind it, added to a chain. -/
theorem reads_logicalStep {previous : Option Op} {op : Op} {left right : Expr} {stop : Nat}
    (next : Op.next? Op.logical (setting.kindsAt start).1 (setting.kindsAt start).2 = some op)
    (words : setting.WordsAt op.words start)
    (reads : Reads setting (expr .relation) (start + op.words.length) (.done right stop))
    (same : setting.options.rejectMixed = true → ∀ other, previous = some other → other = op) :
    Reads setting (logicalStep (left, previous)) start
      (.done (some (.ofBinary left op right, some op)) stop) := by
  refine .andThen reads_nextOperator ?_
  rw [next]
  refine .andThen (reads_attemptRight words reads) ?_
  cases previous with
  | none => exact .yield
  | some previous =>
      dsimp only
      split
      next differs =>
        have lenient : setting.options.rejectMixed = false :=
          Bool.eq_false_iff.mpr fun strict => differs (same strict previous rfl)
        exact .andThen (.forbid lenient) .yield
      next => exact .yield

/-- A comparison and the operand behind it, added to those before. -/
theorem reads_comparisonStep {compared : Compared} {op : Op} {last operand : Expr} {stop : Nat}
    (next : Op.next? Op.relational (setting.kindsAt start).1 (setting.kindsAt start).2 = some op)
    (words : setting.WordsAt op.words start)
    (reads : Reads setting (expr .simpleExpr) (start + op.words.length) (.done operand stop))
    (single : setting.options.rejectChained = true → compared = []) :
    Reads setting (comparisonStep (compared, last)) start
      (.done (some ((last, op) :: compared, operand)) stop) := by
  refine .andThen reads_nextOperator ?_
  rw [next]
  refine .andThen (reads_attemptRight words reads) ?_
  have allowed (extent : Extent) :
      Reads setting (forbidChained compared op extent) stop (.done () stop) := by
    unfold forbidChained
    split
    next => exact .yield
    next more =>
      have lenient : setting.options.rejectChained = false :=
        Bool.eq_false_iff.mpr fun strict => more (List.isEmpty_iff.mpr (single strict))
      exact .forbid lenient
  exact .andThen (allowed _) .yield

/-- A last operand that nothing follows is the innermost of a relation. -/
theorem reads_relation_end {compared : Compared} {last : Expr}
    (follows : setting.buffer.kind start ∈ relationFollow) :
    Reads setting (iterate (compared, last) comparisonStep >>= fun state =>
      membershipTest state.1 state.2 >>= fun last => pure (nestCompared state.1 last)) start
      (.done (nestCompared compared last) start) := by
  have none_ : ∀ kind ∈ relationFollow, kind ∉ Op.starters Op.relational ∧
      kind ∉ Op.starters Op.membership := by decide
  have stops : Reads setting (comparisonStep (compared, last)) start (.done none start) := by
    refine .andThen reads_nextOperator ?_
    rw [next?_eq_none (none_ _ follows).1]
    exact .yield
  have untested : Reads setting (membershipTest compared last) start (.done last start) := by
    refine .andThen reads_nextOperator ?_
    rw [next?_eq_none (none_ _ follows).2]
    exact .yield
  exact .andThen (.iterateStop stops) (.andThen untested .yield)

/-- The texts of two operands and of the operator between them, where they stand. -/
theorem Setting.TextAt.binary {text words more : List Token} {table : List Op} {op : Op}
    (stands : setting.TextAt (text ++ words ++ more) start) (spells : op.Spells table words) :
    setting.TextAt text start ∧ setting.WordsAt op.words (start + text.length) ∧
      setting.TextAt more (start + text.length + op.words.length) ∧
      start + (text ++ words ++ more).length =
        start + text.length + op.words.length + more.length := by
  obtain ⟨front, behind⟩ := Setting.TextAt.append_iff.mp stands
  obtain ⟨left, between⟩ := Setting.TextAt.append_iff.mp front
  have length := spells.length
  refine ⟨left, spells.wordsAt between, ?_, ?_⟩
  · rwa [length, Nat.add_assoc, ← List.length_append]
  · simp only [List.length_append, length]
    omega

theorem Setting.TextAt.unary {words text : List Token} {table : List Op} {op : Op}
    (stands : setting.TextAt (words ++ text) start) (spells : op.Spells table words) :
    setting.WordsAt op.words start ∧ setting.TextAt text (start + op.words.length) ∧
      start + (words ++ text).length = start + op.words.length + text.length ∧
      AdaExpressions.textSpan words = (setting.extent start (start + op.words.length)).span := by
  obtain ⟨between, behind⟩ := Setting.TextAt.append_iff.mp stands
  have length := spells.length
  refine ⟨spells.wordsAt between, by rwa [length], ?_, ?_⟩
  · simp only [List.length_append, length]
    omega
  · rw [between.textSpan spells.ne_nil, length]

/-- The first word of an operator stands where its words do. -/
theorem Setting.WordsAt.kind_mem {table : List Op} {op : Op} (words : setting.WordsAt op.words start)
    (known : op ∈ table) : setting.buffer.kind start ∈ Op.starters table := by
  obtain ⟨first, one | ⟨second, two⟩⟩ := op.words_cases
  · rw [one] at words
    exact List.mem_filterMap.mpr ⟨op, known, by rw [one, words.1]; rfl⟩
  · rw [two] at words
    exact List.mem_filterMap.mpr ⟨op, known, by rw [two, words.1]; rfl⟩

/-- At a number or a parenthesis, the rules that start with neither fail. -/
theorem failsAt_of_foreign {rule : ExprRule} (foreign : rule.Foreign)
    (known : setting.buffer.kind start ∈ Kind.eof :: ladderKinds) :
    (expr rule).FailsAt setting start :=
  rule.failsAt_of_start (foreign _ known)

theorem reads_number (found : setting.buffer.kind start = .number) :
    Reads setting (expr .primary) start
      (.done (.literal .number (setting.buffer.token start)) (start + 1)) := by
  have number : Reads setting (expr .numberLiteral) start
      (.done (.literal .number (setting.buffer.token start)) (start + 1)) :=
    .call (.andThen (reads_take found (by decide)) .yield)
  exact .call (.remember (reads_choice [] rfl (by simp) number))

theorem reads_parenthesized {inner : Expr} {stop : Nat}
    (opened : setting.buffer.kind start = .openParen)
    (starts : setting.buffer.kind (start + 1) ∈ Kind.eof :: ladderKinds)
    (reads : Reads setting (expr .expression) (start + 1) (.done inner stop))
    (closed : setting.buffer.kind stop = .closeParen) :
    Reads setting (expr .primary) start (.done inner (stop + 1)) := by
  have parenthesized : Reads setting (expr .parenthesized) start (.done inner (stop + 1)) :=
    .call (.andThen (reads_take opened (by decide))
      (.andThen (reads_orElse (failsAt_of_foreign (by decide) starts) reads)
        (.andThen (reads_take closed (by decide)) .yield)))
  refine .call (.remember (reads_choice
    [.numberLiteral, .nullLiteral, .name, .allocator, .conditional, .raiseExpr] rfl ?_
    parenthesized))
  intro rule member
  refine rule.failsAt_of_start ?_
  rw [opened]
  revert rule
  decide

/-- A phrase of the ladder can stand behind an operator. -/
theorem Ladder.behind {options : Options} {phrase : LadderPhrase} {text : List Token} {expr_ : Expr}
    (ladder : Ladder options phrase text expr_) (stands : setting.TextAt text start) :
    setting.buffer.kind start ∈ operandStarters := by
  have widest : (LadderPhrase.expr []).starters ⊆ operandStarters := by decide
  have subset : phrase.starters ⊆ (LadderPhrase.expr []).starters := by
    cases phrase with
    | expr _ | relation _ | simple => exact List.Subset.refl _
    | term | factor | primary => decide
  exact widest (subset (ladder.starts.kind stands))

/-- Wherever a phrase of the ladder stands, it is read as what it derives. -/
theorem Ladder.isRead {phrase : LadderPhrase} {text : List Token} {expr_ : Expr}
    (ladder : Ladder setting.options phrase text expr_) (stands : setting.TextAt text start) :
    LadderIsRead setting phrase expr_ start (start + text.length) := by
  induction ladder generalizing start with
  | relation _ ih =>
      intro follows reading reads
      exact .andThen ((ih stands).relation follows) reads
  | @logical operators comparisons op _ _ _ left right _ spells ladder one ihLeft ihRight =>
      obtain ⟨textAt, words, moreAt, stop⟩ := stands.binary spells
      rw [stop]
      intro follows reading reads
      have behind := ladder.behind moreAt
      have next := words.next? (by decide) spells.1 behind
      have starters : Op.starters Op.logical ⊆ relationFollow := by decide
      have first := starters (words.kind_mem spells.1)
      refine ihLeft textAt first reading (.iterateNext ?_ (by simpa using reads))
      refine reads_logicalStep next words ((ihRight moreAt).relation follows) ?_
      exact fun strict other last => one strict other (List.mem_of_getLast? last)
  | simple _ ih =>
      intro follows compared _
      exact .andThen ((ih stands).simpleExpr (List.mem_append_right _ follows))
        (reads_relation_end follows)
  | @comparison comparisons op _ _ _ left right _ spells ladder single ihLeft ihRight =>
      obtain ⟨textAt, words, moreAt, stop⟩ := stands.binary spells
      rw [stop]
      intro follows compared allowed
      have behind := ladder.behind moreAt
      have next := words.next? (by decide) spells.1 behind
      have starters : Op.starters Op.relational ⊆ simpleFollow := by decide
      have first := starters (words.kind_mem spells.1)
      have rest := ihRight moreAt follows ((left, op) :: compared) fun strict => .inr (single strict)
      obtain ⟨operand, middle, readsOperand, rest⟩ := reads_bind_done.mp rest
      obtain ⟨state, last, readsState, rest⟩ := reads_bind_done.mp rest
      refine .andThen ((ihLeft textAt).simpleExpr first) (.andThen (.iterateNext ?_ readsState) rest)
      refine reads_comparisonStep next words readsOperand fun strict => ?_
      exact (allowed strict).resolve_right (Nat.succ_ne_zero comparisons)
  | term ladder ih =>
      intro follows reading reads
      have none_ : ∀ kind ∈ LadderPhrase.term.starters, kind ∉ Op.starters Op.unaryAdding := by
        decide
      exact .andThen (.call (reads_unary_plain (none_ _ (ladder.starts.kind stands))
        ((ih stands).term follows))) reads
  | signed spells ladder ih =>
      obtain ⟨words, textAt, stop, span⟩ := stands.unary spells
      rw [stop, span]
      intro follows reading reads
      have behind := ladder.behind textAt
      have next := words.next? (by decide) spells.1 behind
      exact .andThen (.call (reads_unary next words ((ih textAt).term follows))) reads
  | adding _ spells ladder ihLeft ihRight =>
      obtain ⟨textAt, words, moreAt, stop⟩ := stands.binary spells
      rw [stop]
      intro follows reading reads
      have behind := ladder.behind moreAt
      have next := words.next? (by decide) spells.1 behind
      have starters : Op.starters Op.adding ⊆ termFollow := by decide
      have first := starters (words.kind_mem spells.1)
      exact ihLeft textAt first reading
        (.iterateNext (reads_chainStep next words ((ihRight moreAt).term follows)) reads)
  | factor _ ih =>
      intro follows reading reads
      exact .andThen (ih stands follows) reads
  | @multiplying op _ _ _ left right _ spells ladder ihLeft ihRight =>
      obtain ⟨textAt, words, moreAt, stop⟩ := stands.binary spells
      rw [stop]
      intro follows reading reads
      have known : op ∈ Op.multiplying := by
        have subset : ∀ op ∈ [Op.mult, .div, .rem], op ∈ Op.multiplying := by decide
        exact subset op spells.1
      have behind := ladder.behind moreAt
      have next := words.next? (by decide) known behind
      have starters : Op.starters [Op.mult, .div, .rem] ⊆ factorFollow := by decide
      have first := starters (words.kind_mem spells.1)
      exact ihLeft textAt first reading
        (.iterateNext (reads_chainStep next words (ihRight moreAt follows)) reads)
  | @primary text value ladder ih =>
      intro follows
      have plain : ∀ kind ∈ LadderPhrase.primary.starters, kind ∉ Op.starters Op.highestUnary := by
        decide
      have none_ : ∀ kind ∈ factorFollow, kind ∉ Op.starters Op.exponent := by decide
      have power : Reads setting Grammar.power start
          (.done value (start + text.length)) := by
        refine .andThen (ih stands) (.andThen reads_nextOperator ?_)
        rw [next?_eq_none (none_ _ follows)]
        exact .yield
      exact .call (reads_unary_plain (plain _ (ladder.starts.kind stands)) power)
  | highestUnary spells ladder ih =>
      obtain ⟨words, textAt, stop, span⟩ := stands.unary spells
      rw [stop, span]
      intro _
      have behind := ladder.behind textAt
      have next := words.next? (by decide) spells.1 behind
      exact .call (reads_unary next words (ih textAt))
  | @power op text words_ more left right base spells exponent ihBase ihExponent =>
      obtain ⟨textAt, words, moreAt, stop⟩ := stands.binary spells
      rw [stop]
      intro _
      have behind := exponent.behind moreAt
      have next := words.next? (by decide) spells.1 behind
      have plain : ∀ kind ∈ LadderPhrase.primary.starters, kind ∉ Op.starters Op.highestUnary := by
        decide
      have power : Reads setting Grammar.power start
          (.done (.ofBinary left op right)
            (start + text.length + op.words.length + more.length)) := by
        refine .andThen (ihBase textAt) (.andThen reads_nextOperator ?_)
        rw [next]
        exact .andThen (reads_attemptRight words (ihExponent moreAt)) .yield
      exact .call (reads_unary_plain (plain _ (base.starts.kind textAt)) power)
  | number found =>
      have here := reads_number (stands.kind.trans found)
      rwa [stands.1] at here
  | @parenthesized operators opening closing text expr_ opened ladder closed ih =>
      obtain ⟨front, behind⟩ := Setting.TextAt.append_iff.mp stands
      have known : ∀ kind ∈ (LadderPhrase.expr []).starters, kind ∈ Kind.eof :: ladderKinds := by
        decide
      have closingAt : setting.buffer.kind (start + 1 + text.length) = .closeParen := by
        have here := behind.kind.trans closed
        rwa [List.length_cons, Nat.add_comm text.length 1, ← Nat.add_assoc] at here
      have inner := (ih front.2).expression (by rw [closingAt]; decide)
      have here := reads_parenthesized (front.kind.trans opened)
        (known _ (ladder.starts.kind front.2)) inner closingAt
      have stop : start + (opening :: text ++ [closing]).length = start + 1 + text.length + 1 := by
        simp only [List.length_append, List.length_cons, List.length_nil]
        omega
      rwa [stop]

end

/-! ### Whole token lists -/

theorem Setting.textAt_of_getElem? {setting : Setting} {text : List Token} {start : Nat}
    (stands : ∀ index token, text[index]? = some token →
      setting.buffer.token (start + index) = token) : setting.TextAt text start := by
  induction text generalizing start with
  | nil => trivial
  | cons first more ih =>
      refine ⟨stands 0 first rfl, ih fun index token found => ?_⟩
      rw [show start + 1 + index = start + (index + 1) by omega]
      exact stands (index + 1) token found

section

variable {tokens : List Token} {closing : Token} {file : String} {options : Options}

theorem Buffer.token_ofTokens_closed (closed : closing.kind = .eof) (index : Nat) :
    (ofTokens (tokens ++ [closing]) file).token index = tokens[index]?.getD closing := by
  simp [ofTokens, token, closed]

/-- The tokens before the closing one stand at the start of the buffer that is made of them. -/
theorem Setting.textAt_ofTokens (closed : closing.kind = .eof) :
    (Parser.ofTokens (tokens ++ [closing]) file options).setting.TextAt tokens 0 := by
  refine textAt_of_getElem? fun index found here => ?_
  rw [Nat.zero_add]
  exact (Buffer.token_ofTokens_closed closed index).trans (by rw [here]; rfl)

theorem Buffer.kind_ofTokens_closed (closed : closing.kind = .eof) :
    (ofTokens (tokens ++ [closing]) file).kind (0 + tokens.length) = .eof := by
  simp [kind, token_ofTokens_closed closed, closed]

/-- Numbers, parentheses and operators, ended by an end-of-input token, are accepted exactly if they
are an expression of the ladder that the options allow; and such an expression has one tree. -/
theorem parse_accepted_iff_ladder (ladder : ∀ token ∈ tokens, token.kind ∈ ladderKinds)
    (closed : closing.kind = .eof) :
    (∀ expr, parse (tokens ++ [closing]) file options = .accepted expr ↔
      ∃ operators, Ladder options (.expr operators) tokens expr) ∧
    ∀ expr other operators others, Ladder options (.expr operators) tokens expr →
      Ladder options (.expr others) tokens other → expr = other := by
  let setting := (Parser.ofTokens (tokens ++ [closing]) file options).setting
  have token (index : Nat) : setting.buffer.token index = tokens[index]?.getD closing :=
    Buffer.token_ofTokens_closed closed index
  have stands : setting.TextAt tokens 0 := Setting.textAt_ofTokens closed
  have ends : setting.buffer.kind (0 + tokens.length) = .eof := Buffer.kind_ofTokens_closed closed
  have isLadder : setting.IsLadder := by
    intro index
    rw [Buffer.kind, token]
    cases found : tokens[index]? with
    | none => simp [closed]
    | some here => exact List.mem_cons_of_mem _ (ladder here (List.mem_of_getElem? found))
  have whole : readable setting.buffer.toList = tokens := by
    have more : ∀ token ∈ tokens, (token.kind != .eof) = true := fun token member =>
      bne_iff_ne.mpr fun same => absurd (same ▸ ladder token member) (by decide)
    have same : readable setting.buffer.toList = readable (tokens ++ [closing]) :=
      Buffer.readable_toList (tokens ++ [closing]) file
    rw [same, readable, List.takeWhile_append_of_pos more]
    simp [closed]
  have accepted {expr : Expr} {operators : List Op}
      (derives : Ladder options (.expr operators) tokens expr) :
      parse (tokens ++ [closing]) file options = .accepted expr := by
    have derives : Ladder setting.options (.expr operators) tokens expr := derives
    have follows : setting.buffer.kind (0 + tokens.length) ∈ exprFollow := by
      rw [ends]
      decide
    exact parse_accepted_iff.mpr ⟨_, (derives.isRead stands).expression follows, ends⟩
  refine ⟨fun expr => ⟨fun here => ?_, ?_⟩, ?_⟩
  · obtain ⟨stop, reads, last⟩ := parse_accepted_iff.mp here
    obtain ⟨operators, _, _, derives⟩ := isLadder.ladderAt_of_reads reads
    rw [Setting.slice_eq_readable reads last, whole] at derives
    exact ⟨operators, derives⟩
  · rintro ⟨_, derives⟩
    exact accepted derives
  · intro expr other operators others derives again
    have same := (accepted derives).symm.trans (accepted again)
    exact Verdict.accepted.inj same

/-- A chain of two logical operators, read under strict options. -/
theorem parse_accepted_iff_ladder_mixed :
    let one : Token := ⟨.number, "1", default⟩
    let tokens : List Token :=
      [one, ⟨.kwAnd, "and", default⟩, one, ⟨.kwOr, "or", default⟩, one]
    (∀ token ∈ tokens, token.kind ∈ ladderKinds) ∧
      (∀ expr, parse (tokens ++ [.eof default]) "" .strict = .accepted expr ↔
        ∃ operators, Ladder .strict (.expr operators) tokens expr) := by
  intro one tokens
  have ladder : ∀ token ∈ tokens, token.kind ∈ ladderKinds := by decide
  exact ⟨ladder, (parse_accepted_iff_ladder ladder rfl).1⟩

end

end AdaExpressions
