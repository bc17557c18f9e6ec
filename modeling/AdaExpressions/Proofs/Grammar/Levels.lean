import AdaExpressions.Proofs.Grammar.Ladder

/-!
# One level above another

What one level of the ladder of operators reads, the level above it reads too if no operator of that
level follows; and it reads two operands with one operator of its own between them. The follow sets
are not those of a closed language: nothing is asked of the tokens but that they do not go on. At the
end stand lists and the choices of a choice list, which are read from either end of the ladder.

Results: `reads_expression_of_simpleExpr`, `reads_expression_of_primary`, `reads_separated`.
-/

namespace AdaExpressions

namespace Op

/-! The operators that go on a term, a simple expression, a relation and an expression. -/

def termJoining : List Op :=
  multiplying ++ exponent

def simpleJoining : List Op :=
  adding ++ termJoining

def relationJoining : List Op :=
  relational ++ membership ++ simpleJoining

def joining : List Op :=
  logical ++ relationJoining

end Op

/-- The operator is what its table finds at the index. -/
def Setting.OperatorAt (setting : Setting) (table : List Op) (op : Op) (index : Nat) : Prop :=
  Op.next? table (setting.kindsAt index).1 (setting.kindsAt index).2 = some op

/-- No operator stands here that goes on an expression. -/
def Setting.EndsAt (setting : Setting) (index : Nat) : Prop :=
  setting.buffer.kind index ∉ Op.starters Op.joining

/-- No operator stands here that comes before an operand. -/
def Setting.PlainAt (setting : Setting) (index : Nat) : Prop :=
  setting.buffer.kind index ∉ Op.starters (Op.unaryAdding ++ Op.highestUnary)

theorem Op.not_mem_starters {table other : List Op} {kind : Kind} (none_ : kind ∉ starters other)
    (subset : table ⊆ other) : kind ∉ starters table := fun member =>
  let ⟨op, known, first⟩ := List.mem_filterMap.mp member
  none_ (List.mem_filterMap.mpr ⟨op, subset known, first⟩)

namespace Setting

variable {setting : Setting} {table : List Op} {op : Op} {index : Nat}

theorem OperatorAt.mem (next : setting.OperatorAt table op index) : op ∈ table :=
  Op.mem_of_next? next

theorem OperatorAt.words (next : setting.OperatorAt table op index) :
    setting.WordsAt op.words index := by
  have found : Op.next? table _ _ = some op := next
  have spelt := List.find?_some found
  have more := op.eof_not_mem_words
  obtain ⟨first, one | ⟨second, two⟩⟩ := op.words_cases
  · rw [one] at spelt ⊢
    have here : first = setting.buffer.kind index := by simpa [kindsAt] using spelt
    exact ⟨here.symm, trivial⟩
  · rw [two] at spelt more ⊢
    obtain ⟨here, behind⟩ : first = setting.buffer.kind index ∧ second = (setting.kindsAt index).2 := by
      simpa [kindsAt] using spelt
    have open_ : setting.buffer.kind index ≠ .eof := fun closed => more (by simp [here, closed])
    exact ⟨here.symm, by simpa [kindsAt, open_] using behind.symm, trivial⟩

theorem OperatorAt.kind_mem (next : setting.OperatorAt table op index) :
    setting.buffer.kind index ∈ Op.starters table :=
  next.words.kind_mem next.mem

theorem EndsAt.not_mem (ends : setting.EndsAt index) (subset : table ⊆ Op.joining) :
    setting.buffer.kind index ∉ Op.starters table :=
  Op.not_mem_starters ends subset

theorem PlainAt.not_mem (plain : setting.PlainAt index)
    (subset : table ⊆ Op.unaryAdding ++ Op.highestUnary) :
    setting.buffer.kind index ∉ Op.starters table :=
  Op.not_mem_starters plain subset

end Setting

section

open Program Grammar

variable {setting : Setting} {start middle stop : Nat} {tree left right : Expr} {op : Op}

/-! ### Factors -/

theorem reads_factor (plain : setting.buffer.kind start ∉ Op.starters Op.highestUnary)
    (reads : Reads setting (expr .primary) start (.done tree stop))
    (ends : setting.buffer.kind stop ∉ Op.starters Op.exponent) :
    Reads setting (expr .factor) start (.done tree stop) := by
  have power : Reads setting power start (.done tree stop) := by
    refine .andThen reads (.andThen reads_nextOperator ?_)
    rw [next?_eq_none ends]
    exact .yield
  exact .call (reads_unary_plain plain power)

theorem reads_factor_power (plain : setting.buffer.kind start ∉ Op.starters Op.highestUnary)
    (base : Reads setting (expr .primary) start (.done left middle))
    (next : setting.OperatorAt Op.exponent op middle)
    (exponent : Reads setting (expr .primary) (middle + op.words.length) (.done right stop)) :
    Reads setting (expr .factor) start (.done (.ofBinary left op right) stop) := by
  have power : Reads setting power start (.done (.ofBinary left op right) stop) := by
    refine .andThen base (.andThen reads_nextOperator ?_)
    rw [next]
    exact .andThen (reads_attemptRight next.words exponent) .yield
  exact .call (reads_unary_plain plain power)

theorem reads_factor_unary (next : setting.OperatorAt Op.highestUnary op start)
    (operand : Reads setting (expr .primary) (start + op.words.length) (.done tree stop)) :
    Reads setting (expr .factor) start
      (.done (.ofUnary op (setting.extent start (start + op.words.length)).span tree) stop) :=
  .call (reads_unary next next.words operand)

/-! ### Terms and simple expressions -/

theorem reads_leftChain {table : List Op} {first right : ExprRule}
    (reads : Reads setting (expr first) start (.done tree stop))
    (ends : setting.buffer.kind stop ∉ Op.starters table) :
    Reads setting (leftChain table first right) start (.done tree stop) :=
  .andThen reads (.iterateStop (reads_chainStep_none ends))

theorem reads_leftChain_binary {table : List Op} {first second : ExprRule}
    (readsLeft : Reads setting (expr first) start (.done left middle))
    (next : setting.OperatorAt table op middle)
    (readsRight : Reads setting (expr second) (middle + op.words.length) (.done right stop))
    (ends : setting.buffer.kind stop ∉ Op.starters table) :
    Reads setting (leftChain table first second) start (.done (.ofBinary left op right) stop) :=
  .andThen readsLeft (.iterateNext (reads_chainStep next next.words readsRight)
    (.iterateStop (reads_chainStep_none ends)))

theorem reads_unopTerm (plain : setting.buffer.kind start ∉ Op.starters Op.unaryAdding)
    (reads : Reads setting (expr .term) start (.done tree stop)) :
    Reads setting (expr .unopTerm) start (.done tree stop) :=
  .call (reads_unary_plain plain reads)

theorem reads_unopTerm_unary (next : setting.OperatorAt Op.unaryAdding op start)
    (operand : Reads setting (expr .term) (start + op.words.length) (.done tree stop)) :
    Reads setting (expr .unopTerm) start
      (.done (.ofUnary op (setting.extent start (start + op.words.length)).span tree) stop) :=
  .call (reads_unary next next.words operand)

theorem reads_simpleExpr
    (reads : Reads setting addingChain start (.done tree stop)) :
    Reads setting (expr .simpleExpr) start (.done tree stop) :=
  .call (.remember (.call reads))

/-! ### Relations -/

theorem reads_comparisonStep_none {compared : Compared} {last : Expr}
    (ends : setting.buffer.kind start ∉ Op.starters Op.relational) :
    Reads setting (comparisonStep (compared, last)) start (.done none start) := by
  refine .andThen reads_nextOperator ?_
  rw [next?_eq_none ends]
  exact .yield

theorem reads_membershipTest_none {compared : Compared} {tested : Expr}
    (ends : setting.buffer.kind start ∉ Op.starters Op.membership) :
    Reads setting (membershipTest compared tested) start (.done tested start) := by
  refine .andThen reads_nextOperator ?_
  rw [next?_eq_none ends]
  exact .yield

/-- An operand that no comparison and no membership test follows is a relation. -/
theorem reads_relation (reads : Reads setting (expr .simpleExpr) start (.done tree stop))
    (ends : setting.buffer.kind stop ∉ Op.starters (Op.relational ++ Op.membership)) :
    Reads setting (expr .relation) start (.done tree stop) :=
  .call (.andThen reads (.andThen
    (.iterateStop (reads_comparisonStep_none (Op.not_mem_starters ends (by decide))))
    (.andThen (reads_membershipTest_none (Op.not_mem_starters ends (by decide))) .yield)))

theorem reads_relation_comparison
    (readsLeft : Reads setting (expr .simpleExpr) start (.done left middle))
    (next : setting.OperatorAt Op.relational op middle)
    (readsRight : Reads setting (expr .simpleExpr) (middle + op.words.length) (.done right stop))
    (ends : setting.buffer.kind stop ∉ Op.starters (Op.relational ++ Op.membership)) :
    Reads setting (expr .relation) start (.done (.ofBinary left op right) stop) :=
  .call (.andThen readsLeft (.andThen
    (.iterateNext (reads_comparisonStep next next.words readsRight fun _ => rfl)
      (.iterateStop (reads_comparisonStep_none (Op.not_mem_starters ends (by decide)))))
    (.andThen (reads_membershipTest_none (Op.not_mem_starters ends (by decide))) .yield)))

/-- A membership test of an operand that nothing is compared with. -/
theorem reads_relation_membership {choices : List Choice}
    (readsLeft : Reads setting (expr .simpleExpr) start (.done left middle))
    (next : setting.OperatorAt Op.membership op middle)
    (readsChoices : Reads setting (call .choiceList) (middle + op.words.length) (.done choices stop)) :
    ∃ span, Reads setting (expr .relation) start (.done (.membership left op choices span) stop) := by
  have apart : ∀ kind ∈ Op.starters Op.membership, kind ∉ Op.starters Op.relational := by decide
  have tested (reading : Reading Expr) (reads : Reads setting _ middle reading) :
      Reads setting (membershipTest [] left) middle reading := .andThen reads_nextOperator reads
  rw [next] at tested
  have tested := tested _ (.andThen (reads_attemptRight next.words readsChoices)
    (.andThen .yield .yield))
  exact ⟨_, .call (.andThen readsLeft (.andThen
    (.iterateStop (reads_comparisonStep_none (apart _ next.kind_mem))) (.andThen tested .yield)))⟩

/-! ### Expressions -/

theorem reads_logicalStep_none {chain : Expr × Option Op}
    (ends : setting.buffer.kind start ∉ Op.starters Op.logical) :
    Reads setting (logicalStep chain) start (.done none start) := by
  refine .andThen reads_nextOperator ?_
  rw [next?_eq_none ends]
  exact .yield

theorem reads_expression (reads : Reads setting (expr .relation) start (.done tree stop))
    (ends : setting.buffer.kind stop ∉ Op.starters Op.logical) :
    Reads setting (expr .expression) start (.done tree stop) :=
  .call (.remember (.call (.andThen reads
    (.andThen (.iterateStop (reads_logicalStep_none ends)) .yield))))

theorem reads_expression_logical
    (readsLeft : Reads setting (expr .relation) start (.done left middle))
    (next : setting.OperatorAt Op.logical op middle)
    (readsRight : Reads setting (expr .relation) (middle + op.words.length) (.done right stop))
    (ends : setting.buffer.kind stop ∉ Op.starters Op.logical) :
    Reads setting (expr .expression) start (.done (.ofBinary left op right) stop) :=
  .call (.remember (.call (.andThen readsLeft (.andThen
    (.iterateNext (reads_logicalStep next next.words readsRight fun _ _ none_ => nomatch none_)
      (.iterateStop (reads_logicalStep_none ends))) .yield))))

/-! ### Up the ladder -/

theorem reads_term_of_primary (plain : setting.PlainAt start)
    (reads : Reads setting (expr .primary) start (.done tree stop))
    (ends : setting.buffer.kind stop ∉ Op.starters Op.termJoining) :
    Reads setting (expr .term) start (.done tree stop) := by
  have factor := reads_factor (plain.not_mem (by decide)) reads (Op.not_mem_starters ends (by decide))
  exact .call (reads_leftChain factor (Op.not_mem_starters ends (by decide)))

theorem reads_simpleExpr_of_term (plain : setting.buffer.kind start ∉ Op.starters Op.unaryAdding)
    (reads : Reads setting (expr .term) start (.done tree stop))
    (ends : setting.buffer.kind stop ∉ Op.starters Op.adding) :
    Reads setting (expr .simpleExpr) start (.done tree stop) :=
  reads_simpleExpr (reads_leftChain (reads_unopTerm plain reads) ends)

theorem reads_simpleExpr_of_primary (plain : setting.PlainAt start)
    (reads : Reads setting (expr .primary) start (.done tree stop))
    (ends : setting.buffer.kind stop ∉ Op.starters Op.simpleJoining) :
    Reads setting (expr .simpleExpr) start (.done tree stop) :=
  reads_simpleExpr_of_term (plain.not_mem (by decide))
    (reads_term_of_primary plain reads (Op.not_mem_starters ends (by decide)))
    (Op.not_mem_starters ends (by decide))

theorem reads_relation_of_primary (plain : setting.PlainAt start)
    (reads : Reads setting (expr .primary) start (.done tree stop))
    (ends : setting.buffer.kind stop ∉ Op.starters Op.relationJoining) :
    Reads setting (expr .relation) start (.done tree stop) :=
  reads_relation
    (reads_simpleExpr_of_primary plain reads (Op.not_mem_starters ends (by decide)))
    (Op.not_mem_starters ends (by decide))

theorem reads_expression_of_simpleExpr
    (reads : Reads setting (expr .simpleExpr) start (.done tree stop)) (ends : setting.EndsAt stop) :
    Reads setting (expr .expression) start (.done tree stop) :=
  reads_expression (reads_relation reads (ends.not_mem (by decide))) (ends.not_mem (by decide))

theorem reads_expression_of_term (plain : setting.buffer.kind start ∉ Op.starters Op.unaryAdding)
    (reads : Reads setting (expr .term) start (.done tree stop)) (ends : setting.EndsAt stop) :
    Reads setting (expr .expression) start (.done tree stop) :=
  reads_expression_of_simpleExpr (reads_simpleExpr_of_term plain reads (ends.not_mem (by decide)))
    ends

theorem reads_expression_of_primary (plain : setting.PlainAt start)
    (reads : Reads setting (expr .primary) start (.done tree stop)) (ends : setting.EndsAt stop) :
    Reads setting (expr .expression) start (.done tree stop) :=
  reads_expression_of_simpleExpr
    (reads_simpleExpr_of_primary plain reads (ends.not_mem (by decide))) ends

/-! ### Down the ladder -/

/-- What an expression starts with is read as a simple expression too. -/
theorem exists_simpleExpr_of_expression
    (reads : Reads setting (expr .expression) start (.done tree stop)) :
    ∃ first middle, Reads setting (expr .simpleExpr) start (.done first middle) := by
  obtain ⟨relation, _, readsRelation, _⟩ := reads_bind_done.mp reads.readsBy.readsBy.readsBy
  obtain ⟨first, middle, readsFirst, _⟩ := reads_bind_done.mp readsRelation.readsBy
  exact ⟨first, middle, readsFirst⟩

/-- Without an operator before it, what a simple expression starts with is a primary. -/
theorem exists_primary_of_simpleExpr (plain : setting.PlainAt start)
    (reads : Reads setting (expr .simpleExpr) start (.done tree stop)) :
    ∃ first middle, Reads setting (expr .primary) start (.done first middle) := by
  have operand {table : List Op} {operand : ExprRule} {plainPart : Program Expr} {value : Expr}
      {stop : Nat} (subset : table ⊆ Op.unaryAdding ++ Op.highestUnary)
      (reads : Reads setting (unary table operand plainPart) start (.done value stop)) :
      Reads setting plainPart start (.done value stop) := by
    obtain ⟨_, _, next, rest⟩ := reads_bind_done.mp reads
    cases reads_nextOperator.unique next
    rwa [next?_eq_none (plain.not_mem subset)] at rest
  obtain ⟨_, _, readsUnop, _⟩ := reads_bind_done.mp reads.readsBy.readsBy.readsBy
  have readsTerm := operand (by decide) readsUnop.readsBy
  obtain ⟨_, _, readsFactor, _⟩ := reads_bind_done.mp readsTerm.readsBy
  have readsPower := operand (by decide) readsFactor.readsBy
  obtain ⟨first, middle, readsFirst, _⟩ := reads_bind_done.mp readsPower
  exact ⟨first, middle, readsFirst⟩

/-! ### Lists -/

/-- Further items stand from `start` up to `stop`, each behind a separator. -/
def Setting.ReadsMore {α : Type} (setting : Setting) (separator : Kind) (item : Program α) :
    List α → (start stop : Nat) → Prop
  | [], start, stop => start = stop
  | value :: more, start, stop => setting.buffer.kind start = separator ∧
      ∃ middle, Reads setting item (start + 1) (.done value middle) ∧
        setting.ReadsMore separator item more middle stop

/-- One round of the loop in `separated`, which keeps its items in reverse. -/
def separatedRound {α : Type} (separator : Kind) (item : Program α) (items : List α) :
    Program (Option (List α)) := do
  if (← nextKind) = separator then
    let some item ← attempt (do let _ ← take separator; item) | return none
    return some (item :: items)
  else
    return none

theorem separated_eq {α : Type} (separator : Kind) (item : Program α) :
    separated separator item = (do
      let first ← item
      let rest ← iterate [] (separatedRound separator item)
      return first :: rest.reverse) :=
  rfl

theorem reads_separatedRounds {α : Type} {separator : Kind} {item : Program α} {rest : List α}
    (more : separator ≠ .eof) (readsRest : setting.ReadsMore separator item rest start stop)
    (ends : setting.buffer.kind stop ≠ separator) (read : List α) :
    Reads setting (iterate read (separatedRound separator item)) start
      (.done (rest.reverse ++ read) stop) := by
  induction rest generalizing read start with
  | nil =>
      cases readsRest
      refine .iterateStop (.andThen reads_nextKind ?_)
      rw [if_neg ends]
      exact .yield
  | cons value more_ ih =>
      obtain ⟨found, middle, readsItem, readsRest⟩ := readsRest
      have rest := ih readsRest (value :: read)
      rw [List.reverse_cons, List.append_assoc, List.singleton_append]
      refine .iterateNext (.andThen reads_nextKind ?_) rest
      rw [if_pos found]
      exact .andThen (.attempt (.andThen (reads_take found more) readsItem)) .yield

theorem reads_separated {α : Type} {separator : Kind} {item : Program α} {first : α}
    {rest : List α} (more : separator ≠ .eof)
    (readsFirst : Reads setting item start (.done first middle))
    (readsRest : setting.ReadsMore separator item rest middle stop)
    (ends : setting.buffer.kind stop ≠ separator) :
    Reads setting (separated separator item) start (.done (first :: rest) stop) := by
  rw [separated_eq]
  refine .andThen readsFirst (.andThen (reads_separatedRounds more readsRest ends []) ?_)
  rw [List.append_nil, List.reverse_reverse]
  exact .yield

theorem reads_separated_one {α : Type} {separator : Kind} {item : Program α} {value : α}
    (more : separator ≠ .eof) (reads : Reads setting item start (.done value stop))
    (ends : setting.buffer.kind stop ≠ separator) :
    Reads setting (separated separator item) start (.done [value] stop) :=
  reads_separated more reads (show setting.ReadsMore separator item [] stop stop from rfl) ends

/-! ### Choices -/

theorem reads_discreteRange
    (readsLow : Reads setting (expr .simpleExpr) start (.done left middle))
    (dots : setting.buffer.kind middle = .dotDot)
    (readsHigh : Reads setting (expr .simpleExpr) (middle + 1) (.done right stop)) :
    Reads setting (expr .discreteRange) start (.done (.ofBinary left .range right) stop) :=
  .call (.andThen readsLow (.andThen (reads_take dots (by decide)) (.andThen readsHigh .yield)))

theorem exists_simpleExpr_of_range
    (reads : Reads setting (expr .discreteRange) start (.done tree stop)) :
    ∃ low middle, Reads setting (expr .simpleExpr) start (.done low middle) ∧
      setting.buffer.kind middle = .dotDot := by
  obtain ⟨low, middle, readsLow, rest⟩ := reads_bind_done.mp reads.readsBy
  obtain ⟨_, _, dots, _⟩ := reads_bind_done.mp rest
  rcases dots.readsBy with ⟨found, _⟩ | ⟨_, failed⟩
  · exact ⟨low, middle, readsLow, found⟩
  · cases failed

theorem failsAt_discreteRange
    (reads : Reads setting (expr .simpleExpr) start (.done tree stop))
    (missing : setting.buffer.kind stop ≠ .dotDot) :
    (expr .discreteRange).FailsAt setting start :=
  .call (.behind reads (FailsAt.take missing).bind)

/-- No range starts where an expression is read that ends before something else than dots. -/
theorem failsAt_discreteRange_of_expression
    (reads : Reads setting (expr .expression) start (.done tree stop))
    (missing : setting.buffer.kind stop ≠ .dotDot) :
    (expr .discreteRange).FailsAt setting start := by
  obtain ⟨first, middle, readsFirst⟩ := exists_simpleExpr_of_expression reads
  refine failsAt_discreteRange readsFirst fun dots => missing ?_
  have ends : setting.EndsAt middle := by
    rw [Setting.EndsAt, dots]
    decide
  cases reads.unique (reads_expression_of_simpleExpr readsFirst ends)
  exact dots

theorem reads_choice_range (reads : Reads setting (expr .discreteRange) start (.done tree stop)) :
    Reads setting (call .choice) start (.done (.expr tree) stop) :=
  .call (.andThen (.andThen (.attempt reads) .yield) .yield)

theorem reads_choice_expression
    (reads : Reads setting (expr .expression) start (.done tree stop))
    (missing : setting.buffer.kind stop ≠ .dotDot) :
    Reads setting (call .choice) start (.done (.expr tree) stop) := by
  have range := failsAt_discreteRange_of_expression reads missing
  have found : Reads setting (firstOf [expr .discreteRange, expr .expression]) start
      (.done (some tree) stop) := .andThen (reads_attempt_none range) (.andThen (.attempt reads) .yield)
  exact .call (.andThen found .yield)

theorem reads_choice_others (found : setting.buffer.kind start = .kwOthers) :
    Reads setting (call .choice) start
      (.done (.others (setting.buffer.token start).span) (start + 1)) := by
  have fails (rule : ExprRule) (other : Kind.kwOthers ∉ rule.starters) :
      (expr rule).FailsAt setting start := rule.failsAt_of_start (found ▸ other)
  refine .call (.andThen (reads_firstOf_none fun part member => ?_) (.andThen reads_nextKind ?_))
  · rcases List.mem_pair.mp member with rfl | rfl
    · exact fails .discreteRange (by decide)
    · exact fails .expression (by decide)
  · rw [if_pos found]
    exact .andThen (reads_take found (by decide)) .yield

end

end AdaExpressions
