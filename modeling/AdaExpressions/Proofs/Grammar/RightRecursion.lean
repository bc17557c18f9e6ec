import AdaExpressions.Proofs.Grammar.Levels
import AdaExpressions.Proofs.Reading.Violations
import AdaExpressions.Proofs.Remembering

/-!
# Chains by right recursion

A grammar would say that a term is a factor, or a factor, an operator and a term: a rule that calls
itself on the right and drops the optional part when its right side fails. The rules of the ladder
are loops instead. Here the recursive rules are written in the language of rule programs, with what
they call given as a parameter; `unrolled` puts such a rule into itself as often as is asked for. A
chain takes a token for each operator and for each operand, so beyond the number of tokens it does
not matter how often.

`Trailing` and `Compares` say what stands behind an operand. Both readings are derived from them:
the loop goes through the operators from the left, the recursion from the right, and each stops at
the same operator and for the same reason.

Results: `reads_joinRule`, `reads_chainSteps` and `reads_logicalSteps` (the two readings of a
chain), `reads_relationRule` and `reads_comparisonSteps` (those of a relation), and
`chains_as_rightRecursion`.
-/

namespace AdaExpressions

open Program Grammar

/-! ### The recursive rules -/

/-- A rule that calls itself, as deep as that; at the bottom it fails. -/
def unrolled {α : Type} (rule : Program α → Program α) : Nat → Program α
  | 0 => fail (.noAlternative "" [])
  | depth + 1 => rule (unrolled rule depth)

/-- What to make of a chain: of its last operand, and of an operand, an operator and the rest. -/
structure Builder (β : Type) where
  last : Expr → β
  joined : Expr → Op → β → β

namespace Builder

/-- Operators nest to the right. -/
def nested : Builder Expr where
  last := id
  joined := .ofBinary

/-- What comes of an operand and the operators and operands behind it, in their order. -/
def chain {β : Type} (build : Builder β) : Expr → List (Op × Expr) → β
  | operand, [] => build.last operand
  | operand, (op, next) :: more => build.joined operand op (build.chain next more)

end Builder

/-- Operators nest to the left. -/
def leftTree (operand : Expr) (more : List (Op × Expr)) : Expr :=
  more.foldl (fun left (op, right) => .ofBinary left op right) operand

/-- An operand, and if an operator of the table follows, what is read behind it. -/
def joinRule {β : Type} (build : Builder β) (table : List Op) (operand : ExprRule)
    (tail : Program β) : Program β := do
  let left ← expr operand
  let some op ← nextOperator table | return build.last left
  let some (_, rest) ← attemptRight op tail | return build.last left
  return build.joined left op rest

/-- `term = factor [op term]` -/
def recursiveTerm {β : Type} (build : Builder β) : Nat → Program β :=
  unrolled (joinRule build Op.multiplying .factor)

/-- `simple_expr = unop_term [op tail]` with `tail = term [op tail]` -/
def recursiveSimpleExpr {β : Type} (build : Builder β) (depth : Nat) : Program β :=
  joinRule build Op.adding .unopTerm (unrolled (joinRule build Op.adding .term) depth)

/-- `expression = relation [op expression]` -/
def recursiveExpression {β : Type} (build : Builder β) : Nat → Program β :=
  unrolled (joinRule build Op.logical .relation)

/-- `relation = simple_expr [membership_operator choice_list | comparison relation]` -/
def relationRule (relation : Program Expr) : Program Expr := do
  let operand ← expr .simpleExpr
  match ← nextOperator Op.membership with
  | some op => do
      let some (words, choices) ← attemptRight op (call .choiceList) | return operand
      let last := (choices.getLast?.map Choice.span).getD words.span
      return .membership operand op choices (operand.span.join last)
  | none => do
      let some op ← nextOperator Op.relational | return operand
      let some (_, right) ← attemptRight op relation | return operand
      return .ofBinary operand op right

def recursiveRelation : Nat → Program Expr :=
  unrolled relationRule

/-! ### What stands behind an operand -/

variable {setting : Setting} {α β : Type} {index stop : Nat}

/-- Behind every operator of the table that stands here the program fails. -/
def NoneBehind (setting : Setting) (table : List Op) (right : Program α) (index : Nat) : Prop :=
  ∀ op, setting.OperatorAt table op index → right.FailsAt setting (index + op.words.length)

/-- The operators and operands that go on a chain from the index. -/
inductive Trailing (setting : Setting) (table : List Op) (operand : ExprRule) :
    Nat → List (Op × Expr) → Nat → Prop
  | stop {index : Nat} :
      NoneBehind setting table (expr operand) index → Trailing setting table operand index [] index
  | next {index middle stop : Nat} {op : Op} {tree : Expr} {more : List (Op × Expr)} :
      setting.OperatorAt table op index →
      Reads setting (expr operand) (index + op.words.length) (.done tree middle) →
      Trailing setting table operand middle more stop →
      Trailing setting table operand index ((op, tree) :: more) stop

/-- Where nothing is forbidden, no failure is fatal. -/
theorem Reads.recoverable (allowed : ∀ violation, setting.options.rejects violation = false)
    {program : Program α} (points : program.PointsAt setting) {failure : Failure}
    (reads : Reads setting program index (.failed failure)) : failure.isFatal = false := by
  generalize failed : Reading.failed failure = reading at reads
  induction reads with
  | andThen first _ _ ihNext => exact ihNext (points.2 _ _ _ first) failed
  | andThenFailed _ ih => cases failed; exact ih points.1 rfl
  | fail => cases failed; exact points
  | takeFailed => cases failed; rfl
  | forbidFailed rejected => cases (allowed _).symm.trans rejected
  | attemptFailed _ _ ih => cases failed; exact ih points rfl
  | extentFailed _ ih => cases failed; exact ih points rfl
  | iterateNext _ _ _ ihRest => exact ihRest points failed
  | iterateFailed _ ih => cases failed; exact ih (points _) rfl
  | remember _ ih => exact ih trivial failed
  | call _ ih => exact ih (Program.pointsAt_body _) failed
  | yield | take | peek | forbid | attempt | attemptNone | extent | iterateStop => cases failed

/-- Where nothing is forbidden, a rule is read or fails as an attempt can take it. -/
theorem Rule.reads_or_fails (allowed : ∀ violation, setting.options.rejects violation = false)
    (rule : Rule) (index : Nat) :
    (∃ value stop, Reads setting (.call rule) index (.done value stop)) ∨
      (Program.call rule).FailsAt setting index := by
  obtain ⟨reading, reads⟩ := rule.reads_total setting index
  cases reading with
  | done value stop => exact .inl ⟨value, stop, reads⟩
  | failed failure =>
      have points : (Program.call rule).PointsAt setting := trivial
      exact .inr ⟨failure, reads, reads.recoverable allowed points⟩

theorem reads_attemptRight_none {op : Op} {right : Program α}
    (words : setting.WordsAt op.words index)
    (fails : right.FailsAt setting (index + op.words.length)) :
    Reads setting (attemptRight op right) index (.done none index) :=
  reads_attempt_none (.behind (reads_takeOperator words) fails.bind)

/-- Where nothing is read behind an operator, there is none, or it is left with what follows it. -/
theorem NoneBehind.cases {table : List Op} {right : Program α}
    (none_ : NoneBehind setting table right index) :
    Op.next? table (setting.kindsAt index).1 (setting.kindsAt index).2 = none ∨
      ∃ op, setting.OperatorAt table op index ∧
        Reads setting (attemptRight op right) index (.done none index) := by
  cases found : Op.next? table (setting.kindsAt index).1 (setting.kindsAt index).2 with
  | none => exact .inl rfl
  | some op =>
      have next : setting.OperatorAt table op index := found
      exact .inr ⟨op, next, reads_attemptRight_none next.words (none_ op next)⟩

/-- Something is read behind an operator of the table, or nothing is. -/
theorem noneBehind_or (allowed : ∀ violation, setting.options.rejects violation = false)
    (table : List Op) (rule : Rule) (index : Nat) :
    NoneBehind setting table (.call rule) index ∨
      ∃ op value middle, setting.OperatorAt table op index ∧
        Reads setting (.call rule) (index + op.words.length) (.done value middle) := by
  cases found : Op.next? table (setting.kindsAt index).1 (setting.kindsAt index).2 with
  | none => exact .inl fun op next => by cases found.symm.trans next
  | some op =>
      rcases rule.reads_or_fails allowed (index + op.words.length) with
        ⟨value, middle, reads⟩ | fails
      · exact .inr ⟨op, value, middle, found, reads⟩
      · refine .inl fun other next => ?_
        obtain rfl : op = other := Option.some.inj (found.symm.trans next)
        exact fails

/-- An operator and an operand take two tokens. -/
theorem Setting.OperatorAt.operand_bounds {table : List Op} {op : Op} {rule : Rule}
    {value : rule.Node} {middle : Nat} (next : setting.OperatorAt table op index)
    (reads : Reads setting (.call rule) (index + op.words.length) (.done value middle)) :
    index + 2 ≤ middle ∧ middle < setting.buffer.size := by
  have words := next.words.operator
  have moved := Rule.stop_of_reads reads
  omega

/-- Every chain comes to its end. -/
theorem exists_trailing (allowed : ∀ violation, setting.options.rejects violation = false)
    (table : List Op) (operand : ExprRule) (index : Nat) :
    ∃ more stop, Trailing setting table operand index more stop := by
  rcases noneBehind_or allowed table (.expr operand) index with
    none_ | ⟨op, tree, middle, next, reads⟩
  · exact ⟨[], index, .stop none_⟩
  · have bounds := next.operand_bounds reads
    obtain ⟨more, stop, trailing⟩ := exists_trailing allowed table operand middle
    exact ⟨_, stop, .next next reads trailing⟩
termination_by setting.buffer.size - index

theorem Trailing.bounds {table : List Op} {operand : ExprRule} {more : List (Op × Expr)}
    (trailing : Trailing setting table operand index more stop)
    (within : index < setting.buffer.size) :
    index + 2 * more.length ≤ stop ∧ stop < setting.buffer.size := by
  induction trailing with
  | stop => exact ⟨Nat.le_refl _, within⟩
  | next next reads _ ih =>
      have bounds := next.operand_bounds reads
      have rest := ih bounds.2
      rw [List.length_cons]
      omega

/-! ### The two readings of a chain -/

/-- The recursion leaves the same operator unread that the loop does: behind it the rule fails
with its first operand. -/
theorem reads_joinRule {β : Type} (build : Builder β) {table : List Op} {first operand : ExprRule}
    {start depth : Nat} {left : Expr} {more : List (Op × Expr)}
    (reads : Reads setting (expr first) start (.done left index))
    (trailing : Trailing setting table operand index more stop) (deep : more.length < depth) :
    Reads setting (joinRule build table first (unrolled (joinRule build table operand) depth)) start
      (.done (build.chain left more) stop) := by
  induction trailing generalizing first start left depth with
  | stop none_ =>
      obtain ⟨depth, rfl⟩ := Nat.exists_eq_add_of_lt deep
      refine .andThen reads (.andThen reads_nextOperator ?_)
      have none_ : NoneBehind setting table
          (unrolled (joinRule build table operand) (0 + depth + 1)) _ :=
        fun op next => (none_ op next).bind
      rcases none_.cases with absent | ⟨op, next, dropped⟩
      · rw [absent]
        exact .yield
      · rw [next]
        exact .andThen dropped .yield
  | next next operandReads _ ih =>
      obtain ⟨depth, rfl⟩ : ∃ rest, depth = rest + 1 := ⟨depth - 1, by omega⟩
      have rest := ih operandReads (Nat.lt_of_succ_lt_succ deep)
      refine .andThen reads (.andThen reads_nextOperator ?_)
      rw [next]
      exact .andThen (reads_attemptRight next.words rest) .yield

theorem reads_chainSteps {table : List Op} {operand : ExprRule} {more : List (Op × Expr)}
    (trailing : Trailing setting table operand index more stop) (left : Expr) :
    Reads setting (iterate left (chainStep table operand)) index
      (.done (leftTree left more) stop) := by
  induction trailing generalizing left with
  | stop none_ =>
      refine .iterateStop (.andThen reads_nextOperator ?_)
      rcases none_.cases with absent | ⟨op, next, dropped⟩
      · rw [absent]
        exact .yield
      · rw [next]
        exact .andThen dropped .yield
  | next next reads _ ih => exact .iterateNext (reads_chainStep next next.words reads) (ih _)

theorem reads_logicalSteps (allowed : ∀ violation, setting.options.rejects violation = false)
    {more : List (Op × Expr)} (trailing : Trailing setting Op.logical .relation index more stop)
    (left : Expr) (previous : Option Op) :
    ∃ last, Reads setting (iterate (left, previous) logicalStep) index
      (.done (leftTree left more, last) stop) := by
  induction trailing generalizing left previous with
  | stop none_ =>
      refine ⟨previous, .iterateStop (.andThen reads_nextOperator ?_)⟩
      rcases none_.cases with absent | ⟨op, next, dropped⟩
      · rw [absent]
        exact .yield
      · rw [next]
        exact .andThen dropped .yield
  | @next _ _ _ op _ _ next reads _ ih =>
      have mixing : setting.options.rejectMixed = false := allowed (.mixed op op)
      obtain ⟨last, rest⟩ := ih _ (some op)
      have step : Reads setting (logicalStep (left, previous)) _ _ :=
        reads_logicalStep next next.words reads fun strict => by cases mixing.symm.trans strict
      exact ⟨last, .iterateNext step rest⟩

/-! ### The two readings of a relation -/

/-- The span of a membership test that starts with the operand. -/
def testSpan (setting : Setting) (operand : Expr) (op : Op) (choices : List Choice) (index : Nat) :
    Span :=
  let words := setting.extent index (index + op.words.length)
  operand.span.join ((choices.getLast?.map Choice.span).getD words.span)

/-- What becomes of an operand with the comparisons and the membership test behind it. -/
inductive Compares (setting : Setting) : Nat → Expr → Expr → Nat → Prop
  | last {index : Nat} {operand : Expr} :
      NoneBehind setting Op.membership (call .choiceList) index →
      NoneBehind setting Op.relational (expr .simpleExpr) index →
      Compares setting index operand operand index
  | tested {index stop : Nat} {operand : Expr} {op : Op} {choices : List Choice} :
      setting.OperatorAt Op.membership op index →
      Reads setting (call .choiceList) (index + op.words.length) (.done choices stop) →
      Compares setting index operand
        (.membership operand op choices (testSpan setting operand op choices index)) stop
  | compared {index middle stop : Nat} {operand right tree : Expr} {op : Op} :
      setting.OperatorAt Op.relational op index →
      Reads setting (expr .simpleExpr) (index + op.words.length) (.done right middle) →
      Compares setting middle right tree stop →
      Compares setting index operand (.ofBinary operand op tree) stop

/-- No comparison starts as a membership operator does. -/
theorem Setting.OperatorAt.noMembership {op : Op}
    (next : setting.OperatorAt Op.relational op index) :
    Op.next? Op.membership (setting.kindsAt index).1 (setting.kindsAt index).2 = none := by
  have apart : ∀ kind ∈ Op.starters Op.relational, kind ∉ Op.starters Op.membership := by decide
  exact next?_eq_none (apart _ next.kind_mem)

theorem Setting.OperatorAt.noComparison {op : Op}
    (next : setting.OperatorAt Op.membership op index) :
    Op.next? Op.relational (setting.kindsAt index).1 (setting.kindsAt index).2 = none := by
  have apart : ∀ kind ∈ Op.starters Op.membership, kind ∉ Op.starters Op.relational := by decide
  exact next?_eq_none (apart _ next.kind_mem)

theorem exists_compares (allowed : ∀ violation, setting.options.rejects violation = false)
    (index : Nat) (operand : Expr) : ∃ tree stop, Compares setting index operand tree stop := by
  rcases noneBehind_or allowed Op.membership .choiceList index with
    untested | ⟨op, choices, stop, next, reads⟩
  · rcases noneBehind_or allowed Op.relational (.expr .simpleExpr) index with
      uncompared | ⟨op, right, middle, next, reads⟩
    · exact ⟨operand, index, .last untested uncompared⟩
    · have bounds := next.operand_bounds reads
      obtain ⟨tree, stop, rest⟩ := exists_compares allowed middle right
      exact ⟨_, stop, .compared next reads rest⟩
  · exact ⟨_, stop, .tested next reads⟩
termination_by setting.buffer.size - index

theorem reads_relationRule {tree operand : Expr} {start depth : Nat}
    (reads : Reads setting (expr .simpleExpr) start (.done operand index))
    (compares : Compares setting index operand tree stop)
    (deep : setting.buffer.size - index ≤ depth) :
    Reads setting (relationRule (unrolled relationRule depth)) start (.done tree stop) := by
  have within := (Rule.stop_of_reads reads).2
  induction compares generalizing start depth with
  | last untested uncompared =>
      obtain ⟨depth, rfl⟩ : ∃ rest, depth = rest + 1 := ⟨depth - 1, by omega⟩
      refine .andThen reads (.andThen reads_nextOperator ?_)
      rcases untested.cases with absent | ⟨op, next, dropped⟩
      · rw [absent]
        refine .andThen reads_nextOperator ?_
        have none_ : NoneBehind setting Op.relational (unrolled relationRule (depth + 1)) _ :=
          fun op next => (uncompared op next).bind
        rcases none_.cases with absent | ⟨op, next, dropped⟩
        · rw [absent]
          exact .yield
        · rw [next]
          exact .andThen dropped .yield
      · rw [next]
        exact .andThen dropped .yield
  | tested next choices =>
      refine .andThen reads (.andThen reads_nextOperator ?_)
      rw [next]
      exact .andThen (reads_attemptRight next.words choices) .yield
  | compared next right _ ih =>
      have bounds := next.operand_bounds right
      obtain ⟨depth, rfl⟩ : ∃ rest, depth = rest + 1 := ⟨depth - 1, by omega⟩
      have rest := @ih _ depth right (by omega) bounds.2
      refine .andThen reads (.andThen reads_nextOperator ?_)
      rw [next.noMembership]
      refine .andThen reads_nextOperator ?_
      rw [next]
      exact .andThen (reads_attemptRight next.words rest) .yield

theorem reads_forbidChained (chaining : setting.options.rejectChained = false)
    (compared : Compared) (op : Op) (words : Extent) :
    Reads setting (forbidChained compared op words) index (.done () index) := by
  unfold forbidChained
  split
  · exact .yield
  · exact .forbid chaining

/-- The loop keeps the operands that are compared and nests them at the end, when the last one is
known; a membership test is of the last one alone. -/
theorem reads_comparisonSteps (allowed : ∀ violation, setting.options.rejects violation = false)
    {tree operand : Expr} (compares : Compares setting index operand tree stop)
    (compared : Compared) :
    ∃ outer last middle,
      Reads setting (iterate (compared, operand) comparisonStep) index
        (.done (outer, last) middle) ∧
      Reads setting (membershipTest outer last >>= fun last => pure (nestCompared outer last))
        middle (.done (nestCompared compared tree) stop) := by
  have chaining : setting.options.rejectChained = false := allowed (.chained default)
  induction compares generalizing compared with
  | @last index operand untested uncompared =>
      refine ⟨compared, operand, index, .iterateStop (.andThen reads_nextOperator ?_),
        .andThen (.andThen reads_nextOperator ?_) .yield⟩
      · rcases uncompared.cases with absent | ⟨op, next, dropped⟩
        · rw [absent]
          exact .yield
        · rw [next]
          exact .andThen dropped .yield
      · rcases untested.cases with absent | ⟨op, next, dropped⟩
        · rw [absent]
          exact .yield
        · rw [next]
          exact .andThen dropped .yield
  | @tested index stop operand op choices next reads =>
      refine ⟨compared, operand, index, .iterateStop (.andThen reads_nextOperator ?_),
        .andThen (.andThen reads_nextOperator ?_) .yield⟩
      · rw [next.noComparison]
        exact .yield
      · rw [next]
        exact .andThen (reads_attemptRight next.words reads)
          (.andThen (reads_forbidChained chaining compared op _) .yield)
  | compared next reads _ ih =>
      obtain ⟨outer, last, middle, steps, test⟩ := ih ((_, _) :: compared)
      exact ⟨outer, last, middle, .iterateNext (reads_comparisonStep next next.words reads
        fun strict => by cases chaining.symm.trans strict) steps, test⟩

/-! ### Answers -/

namespace Parser

variable {parser : Parser} {program : Program α}

/-- What a program reads is what the parser answers, if the program exhausts no limit. -/
theorem accepted_of_reads (agrees : parser.state.Agrees parser.setting) (keyed : program.Keyed)
    {goal : α → Nat → Prop}
    (meets : program.Meets parser.setting (moving parser.setting) parser.mark goal) {value : α}
    (reads : Reads parser.setting program parser.mark (.done value stop)) :
    (parser.read program).1 = .accepted value ∧ (parser.read program).2.mark = stop := by
  rcases Program.read_cases keyed agrees meets with ⟨_, _, answer, same, _⟩ | ⟨_, _, _, fails, _⟩
  · cases same.unique reads
    simp only [read, answer, mark, and_self]
  · cases fails.unique reads

theorem rejected_of_reads (agrees : parser.state.Agrees parser.setting) (keyed : program.Keyed)
    {goal : α → Nat → Prop}
    (meets : program.Meets parser.setting (moving parser.setting) parser.mark goal)
    {failure : Failure} (reads : Reads parser.setting program parser.mark (.failed failure)) :
    (parser.read program).1 = .rejected failure.error := by
  rcases Program.read_cases keyed agrees meets with ⟨_, _, _, same, _⟩ | ⟨_, _, answer, fails, _⟩
  · cases same.unique reads
  · cases fails.unique reads
    simp only [read, answer]

end Parser

/-! The recursive rules keep results under their keys and, having no loops, exhaust no limit. -/

theorem keyed_unrolled {rule : Program α → Program α}
    (keyed : ∀ inner : Program α, inner.Keyed → (rule inner).Keyed) (depth : Nat) :
    (unrolled rule depth).Keyed := by
  induction depth with
  | zero => trivial
  | succ depth ih => exact keyed _ ih

theorem meets_unrolled {rule : Program α → Program α}
    (meets : ∀ inner : Program α,
      (∀ index, inner.Meets setting (moving setting) index fun _ _ => True) →
      ∀ index, (rule inner).Meets setting (moving setting) index fun _ _ => True)
    (depth index : Nat) :
    (unrolled rule depth).Meets setting (moving setting) index fun _ _ => True := by
  induction depth generalizing index with
  | zero => trivial
  | succ depth ih => exact meets _ ih index

theorem keyed_joinRule {β : Type} (build : Builder β) (table : List Op) (operand : ExprRule)
    {tail : Program β} (keyed : tail.Keyed) : (joinRule build table operand tail).Keyed := by
  simp only [joinRule, expr, nextOperator, keyed_bind, keyed_pure, keyed_attemptRight, Keyed,
    Option.forall, keyed, implies_true, and_self]

theorem meets_joinRule {β : Type} (build : Builder β) (table : List Op) (operand : ExprRule)
    {tail : Program β}
    (meets : ∀ index, tail.Meets setting (moving setting) index fun _ _ => True) (index : Nat) :
    (joinRule build table operand tail).Meets setting (moving setting) index fun _ _ => True := by
  refine ⟨trivial, fun left stop _ _ => ?_⟩
  simp only [meets_bind, meets_nextOperator]
  split
  next op _ => exact meets_attemptRight (fun _ => (meets _).mono fun _ _ _ => trivial) trivial
  next => trivial

theorem keyed_relationRule {relation : Program Expr} (keyed : relation.Keyed) :
    (relationRule relation).Keyed := by
  simp only [relationRule, expr, nextOperator, keyed_bind, keyed_pure, keyed_attemptRight, Keyed,
    Option.forall, keyed, implies_true, and_self]

theorem meets_relationRule {relation : Program Expr}
    (meets : ∀ index, relation.Meets setting (moving setting) index fun _ _ => True)
    (index : Nat) :
    (relationRule relation).Meets setting (moving setting) index fun _ _ => True := by
  refine ⟨trivial, fun operand stop _ _ => ?_⟩
  simp only [meets_bind, meets_nextOperator]
  split
  next op _ => exact meets_attemptRight (fun _ => ⟨trivial, fun _ _ _ _ => trivial⟩) trivial
  next =>
    simp only [meets_bind, meets_nextOperator]
    split
    next op _ => exact meets_attemptRight (fun _ => (meets _).mono fun _ _ _ => trivial) trivial
    next => trivial

/-! ### The ladder -/

namespace Parser

/-- The rule, which nests to the left, and the recursive rule accept the same operands and operators
in the same order, up to the same mark; or both are rejected with one error. -/
inductive SameChain (parser : Parser) (rule : ExprRule)
    (recursive : {β : Type} → Builder β → Nat → Program β) : Prop
  | accepted (operand : Expr) (more : List (Op × Expr)) :
      (parser.rule (.expr rule)).1 = .accepted (leftTree operand more) →
      (∀ {β : Type} (build : Builder β) (depth : Nat), parser.buffer.size ≤ depth →
        (parser.read (recursive build depth)).1 = .accepted (build.chain operand more) ∧
        (parser.read (recursive build depth)).2.mark = (parser.rule (.expr rule)).2.mark) →
      SameChain parser rule recursive
  | rejected (error : Error) :
      (parser.rule (.expr rule)).1 = .rejected error →
      (∀ {β : Type} (build : Builder β) (depth : Nat), parser.buffer.size ≤ depth →
        (parser.read (recursive build depth)).1 = .rejected error) →
      SameChain parser rule recursive

variable {parser : Parser}

theorem sameChain (agrees : parser.state.Agrees parser.setting)
    (allowed : ∀ violation, parser.setting.options.rejects violation = false)
    {rule first operand : ExprRule} {table : List Op}
    {recursive : {β : Type} → Builder β → Nat → Program β}
    (unfolds : ∀ {β : Type} (build : Builder β) (depth : Nat), parser.buffer.size ≤ depth →
      ∃ deep, parser.buffer.size ≤ deep + 1 ∧
        recursive build depth =
          joinRule build table first (unrolled (joinRule build table operand) deep))
    (loops : ∀ {index stop : Nat} {left : Expr} {more : List (Op × Expr)},
      Reads parser.setting (expr first) parser.mark (.done left index) →
      Trailing parser.setting table operand index more stop →
      Reads parser.setting (expr rule) parser.mark (.done (leftTree left more) stop))
    (fails : ∀ {failure : Failure},
      Reads parser.setting (expr first) parser.mark (.failed failure) →
      Reads parser.setting (expr rule) parser.mark (.failed failure)) :
    parser.SameChain rule recursive := by
  have keyed {β : Type} (build : Builder β) (deep : Nat) :
      (joinRule build table first (unrolled (joinRule build table operand) deep)).Keyed :=
    keyed_joinRule build table first
      (keyed_unrolled (fun _ => keyed_joinRule build table operand) deep)
  have meets {β : Type} (build : Builder β) (deep : Nat) :
      (joinRule build table first (unrolled (joinRule build table operand) deep)).Meets
        parser.setting (moving parser.setting) parser.mark fun _ _ => True :=
    meets_joinRule build table first
      (meets_unrolled (fun _ => meets_joinRule build table operand) deep) parser.mark
  have ruleKeyed : (expr rule).Keyed := trivial
  have ruleMeets : (expr rule).Meets parser.setting (moving parser.setting) parser.mark
      fun _ _ => True := ⟨trivial, fun _ _ _ _ => trivial⟩
  obtain ⟨reading, reads⟩ := Rule.reads_total parser.setting (.expr first) parser.mark
  cases reading with
  | done left index =>
      have moved := Rule.stop_of_reads reads
      obtain ⟨more, stop, trailing⟩ := exists_trailing allowed table operand index
      have bounds := trailing.bounds moved.2
      obtain ⟨accepted, stops⟩ :=
        accepted_of_reads agrees ruleKeyed ruleMeets (loops reads trailing)
      refine .accepted left more accepted fun build depth enough => ?_
      obtain ⟨deep, enough, same⟩ := unfolds build depth enough
      have buffer : parser.setting.buffer.size = parser.buffer.size := rfl
      have short : more.length < deep := by omega
      obtain ⟨answer, stops'⟩ := accepted_of_reads agrees (keyed build deep) (meets build deep)
        (reads_joinRule build reads trailing short)
      rw [same]
      exact ⟨answer, stops'.trans stops.symm⟩
  | failed failure =>
      refine .rejected failure.error
        (rejected_of_reads agrees ruleKeyed ruleMeets (fails reads)) fun build depth enough => ?_
      obtain ⟨deep, _, same⟩ := unfolds build depth enough
      rw [same]
      exact rejected_of_reads agrees (keyed build deep) (meets build deep) (.andThenFailed reads)

theorem sameAnswer_relation (agrees : parser.state.Agrees parser.setting)
    (allowed : ∀ violation, parser.setting.options.rejects violation = false) {depth : Nat}
    (enough : parser.buffer.size ≤ depth) :
    SameAnswer 0 (parser.rule (.expr .relation)).1 (parser.rule (.expr .relation)).2.mark
      (parser.read (recursiveRelation depth)).1 (parser.read (recursiveRelation depth)).2.mark := by
  obtain ⟨depth, rfl⟩ : ∃ deep, depth = deep + 1 := by
    have positive : 0 < parser.buffer.size := Nat.succ_pos _
    exact ⟨depth - 1, by omega⟩
  have keyed : (recursiveRelation (depth + 1)).Keyed :=
    keyed_unrolled (fun _ => keyed_relationRule) (depth + 1)
  have meets : (recursiveRelation (depth + 1)).Meets parser.setting (moving parser.setting)
      parser.mark fun _ _ => True :=
    meets_unrolled (fun _ => meets_relationRule) (depth + 1) parser.mark
  have ruleKeyed : (expr .relation).Keyed := trivial
  have ruleMeets : (expr .relation).Meets parser.setting (moving parser.setting) parser.mark
      fun _ _ => True := ⟨trivial, fun _ _ _ _ => trivial⟩
  obtain ⟨reading, reads⟩ := Rule.reads_total parser.setting (.expr .simpleExpr) parser.mark
  cases reading with
  | done operand index =>
      have moved := Rule.stop_of_reads reads
      obtain ⟨tree, stop, compares⟩ := exists_compares allowed index operand
      obtain ⟨outer, last, middle, steps, test⟩ := reads_comparisonSteps allowed compares []
      have loop : Reads parser.setting (expr .relation) parser.mark (.done tree stop) :=
        .call (.andThen reads (.andThen steps test))
      have buffer : parser.setting.buffer.size = parser.buffer.size := rfl
      have recursion : Reads parser.setting (recursiveRelation (depth + 1)) parser.mark
          (.done tree stop) := reads_relationRule reads compares (by omega)
      obtain ⟨accepted, stops⟩ := accepted_of_reads agrees ruleKeyed ruleMeets loop
      obtain ⟨again, stops'⟩ := accepted_of_reads agrees keyed meets recursion
      show SameAnswer 0 (parser.read (expr .relation)).1 (parser.read (expr .relation)).2.mark _ _
      rw [accepted, again, stops, stops']
      exact .accepted
  | failed failure =>
      have rejected := rejected_of_reads agrees ruleKeyed ruleMeets (.call (.andThenFailed reads))
      have again := rejected_of_reads agrees keyed meets (.andThenFailed reads)
      show SameAnswer 0 (parser.read (expr .relation)).1 (parser.read (expr .relation)).2.mark _ _
      rw [rejected, again]
      exact .rejected

end Parser

/-- Wherever a session under the default options leads, the rules that loop consume what the
recursive ones do. A relation comes out as the same tree; a term, a simple expression and an
expression with the same operands and operators, nested to the left where the recursive rule nests
to the right. The recursive rules are put into themselves at least as often as there are tokens. -/
theorem chains_as_rightRecursion {tokens : List Token} {file : String} {parser : Parser}
    (session : Session tokens file .lenient parser) :
    (∀ depth, parser.buffer.size ≤ depth →
      SameAnswer 0 (parser.rule (.expr .relation)).1 (parser.rule (.expr .relation)).2.mark
        (parser.read (recursiveRelation depth)).1 (parser.read (recursiveRelation depth)).2.mark) ∧
    parser.SameChain .term recursiveTerm ∧
    parser.SameChain .simpleExpr recursiveSimpleExpr ∧
    parser.SameChain .expression recursiveExpression := by
  obtain ⟨agrees, _⟩ := session.keeps
  have options : parser.setting.options = .lenient := congrArg Setting.options session.setting_eq
  have allowed (violation : Violation) : parser.setting.options.rejects violation = false := by
    rw [options]
    cases violation <;> rfl
  have once {β : Type} {rule : Program β → Program β} {depth : Nat}
      (enough : parser.buffer.size ≤ depth) :
      ∃ deep, parser.buffer.size ≤ deep + 1 ∧ unrolled rule depth = rule (unrolled rule deep) := by
    have positive : 0 < parser.buffer.size := Nat.succ_pos _
    obtain ⟨deep, rfl⟩ : ∃ deep, depth = deep + 1 := ⟨depth - 1, by omega⟩
    exact ⟨deep, enough, rfl⟩
  refine ⟨fun depth enough => Parser.sameAnswer_relation agrees allowed enough, ?_, ?_, ?_⟩
  · refine Parser.sameChain agrees allowed (fun build depth enough => once enough) ?_ ?_
    · exact fun reads trailing => .call (.andThen reads (reads_chainSteps trailing _))
    · exact fun failed => .call (.andThenFailed failed)
  · refine Parser.sameChain agrees allowed
      (fun build depth enough => ⟨depth, Nat.le_succ_of_le enough, rfl⟩) ?_ ?_
    · exact fun reads trailing =>
        reads_simpleExpr (.andThen reads (reads_chainSteps trailing _))
    · exact fun failed => .call (.remember (.call (.andThenFailed failed)))
  · refine Parser.sameChain agrees allowed (fun build depth enough => once enough) ?_ ?_
    · intro index stop left more reads trailing
      obtain ⟨last, steps⟩ := reads_logicalSteps allowed trailing left none
      exact .call (.remember (.call (.andThen reads (.andThen steps .yield))))
    · exact fun failed => .call (.remember (.call (.andThenFailed failed)))

/-- Three numbers with a minus sign behind each. The last sign is left unread. -/
theorem chains_as_rightRecursion_dangling :
    let one : Token := ⟨.number, "1", default⟩
    let minus : Token := ⟨.dash, "-", default⟩
    let tokens : List Token := [one, minus, one, minus, one, minus]
    let parser := Parser.ofTokens tokens "" .lenient
    let number : Expr := .literal .number one
    let more : List (Op × Expr) := [(.minus, number), (.minus, number)]
    Session tokens "" .lenient parser ∧ parser.buffer.size ≤ 7 ∧
      SameAnswer 0 (parser.rule (.expr .relation)).1 (parser.rule (.expr .relation)).2.mark
        (parser.read (recursiveRelation 7)).1 (parser.read (recursiveRelation 7)).2.mark ∧
      parser.SameChain .simpleExpr recursiveSimpleExpr ∧
      (parser.rule (.expr .simpleExpr)).1 = .accepted (leftTree number more) ∧
      (parser.read (recursiveSimpleExpr .nested 7)).1 =
        .accepted (Builder.nested.chain number more) := by
  intro one minus tokens parser number more
  have session : Session tokens "" .lenient parser := .start
  obtain ⟨relation, _, simpleExpr, _⟩ := chains_as_rightRecursion session
  exact ⟨session, by decide, relation 7 (by decide), simpleExpr, by cbv, by cbv⟩

end AdaExpressions
