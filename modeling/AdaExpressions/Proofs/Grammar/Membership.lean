import AdaExpressions.Proofs.Grammar.Levels

/-!
# Where a membership test ends

A choice is a range or else a whole expression, and an expression takes every logical operator that
has a relation behind it. So a membership test ends before a logical operator only if its last choice
is a range or `others`: in `X in A and B` the choice is `A and B`.

Results: `expression_of_membership_logical` (for any choices), `parse_membership_logical` (what whole
token lists are read as, by the form of the last choice).
-/

namespace AdaExpressions

/-- No logical operator with a relation behind it stands at the index. -/
def Setting.LogicalEndsAt (setting : Setting) (index : Nat) : Prop :=
  ∀ op right stop, setting.OperatorAt Op.logical op index →
    ¬ Reads setting (.expr .relation) (index + op.words.length) (.done right stop)

/-- A choice that takes no operator after it: a range or `others`. -/
def Choice.isClosed : Choice → Bool
  | .expr inner => inner.isRange
  | .others _ => true

/-- Choices stand from `start` on, each with a bar behind it, up to the place of a further one. -/
def Setting.ReadsChoices (setting : Setting) : List Choice → (start place : Nat) → Prop
  | [], start, place => start = place
  | choice :: more, start, place => ∃ middle,
      Reads setting (.call .choice) start (.done choice middle) ∧
      setting.buffer.kind middle = .pipe ∧ setting.ReadsChoices more (middle + 1) place

section

open Program Grammar

variable {setting : Setting} {start middle stop : Nat}

/-- An expression takes the logical operators behind it as long as relations follow them. -/
theorem logicalEndsAt_of_expression {tree : Expr}
    (reads : Reads setting (expr .expression) start (.done tree stop)) :
    setting.LogicalEndsAt stop := by
  -- A round that ends the chain found no operator, or a failed operand behind the one it found.
  have step (chain : Expr × Option Op) (index : Nat) :
      (logicalStep chain).Meets setting (moving setting) index fun next stop =>
        match next with
        | none => setting.LogicalEndsAt stop
        | some _ => index < stop := by
    obtain ⟨left, previous⟩ := chain
    simp only [logicalStep, meets_bind, meets_nextOperator]
    split
    next op found =>
      refine ⟨meets_takeOperator fun words => ?_, fun fails other right last next reads => ?_⟩
      · have behind := words.operator.1
        refine ⟨trivial, fun operand stop _ moved => ?_⟩
        have moved : index + op.words.length < stop := moved.1
        have further : index < stop := by omega
        dsimp only
        split <;> simp [further]
      · cases found.symm.trans next
        obtain ⟨failure, failed, _⟩ := fails
        cases failed.unique (.andThen (reads_takeOperator next.words) (.andThen reads .yield))
    next missing => exact fun op _ _ next => absurd next (missing op)
  have chain : logicalChain.Meets setting (moving setting) start
      fun _ stop => setting.LogicalEndsAt stop := by
    simp only [logicalChain, meets_bind]
    refine ⟨trivial, fun operand stop _ _ => ?_⟩
    refine meets_iterate (fun _ _ => True) trivial fun chain index _ => ?_
    refine Meets.mono (step chain index) fun next stop reached => ?_
    cases next with
    | none => exact reached
    | some next => exact ⟨reached, trivial⟩
  have readsChain : Reads setting logicalChain start (.done tree stop) :=
    reads.readsBy.readsBy.readsBy
  have ended := Meets.of_calls (fun _ _ _ _ => Rule.stop_of_reads) chain readsChain
  exact ended

/-- A choice is closed or ends as an expression does. -/
theorem logicalEndsAt_of_choice {choice : Choice}
    (reads : Reads setting (call .choice) start (.done choice stop)) :
    choice.isClosed = true ∨ setting.LogicalEndsAt stop := by
  have range {inner : Expr} {stop : Nat}
      (reads : Reads setting (expr .discreteRange) start (.done inner stop)) :
      inner.isRange = true := by
    obtain ⟨low, _, _, reads⟩ := reads_bind_done.mp reads.readsBy
    obtain ⟨_, _, _, reads⟩ := reads_bind_done.mp reads
    obtain ⟨high, _, _, reads⟩ := reads_bind_done.mp reads
    cases reads_pure.mp reads
    rfl
  have body : Grammar.choice.Meets setting (moving setting) start fun choice stop =>
      choice.isClosed = true ∨ setting.LogicalEndsAt stop := by
    simp only [Grammar.choice, meets_bind, meets_firstOf_cons, meets_firstOf_nil]
    refine ⟨⟨trivial, fun _ _ reads _ => .inl (range reads)⟩, fun _ =>
      ⟨⟨trivial, fun _ _ reads _ => .inr (logicalEndsAt_of_expression reads)⟩, fun _ => ?_⟩⟩
    simp [Choice.isClosed]
  have readsBody : Reads setting Grammar.choice start (.done choice stop) := reads.readsBy
  have ended := Meets.of_calls (fun _ _ _ _ => Rule.stop_of_reads) body readsBody
  exact ended

/-- A choice list is as its last choice is. -/
theorem logicalEndsAt_of_choiceList {choices : List Choice}
    (reads : Reads setting (call .choiceList) start (.done choices stop)) :
    (∀ choice ∈ choices.getLast?, choice.isClosed = true) ∨ setting.LogicalEndsAt stop := by
  have list : choiceList.Meets setting (moving setting) start fun choices stop =>
      (∀ choice ∈ choices.getLast?, choice.isClosed = true) ∨ setting.LogicalEndsAt stop := by
    refine meets_separated (by decide) (fun choices stop =>
      (∀ choice ∈ choices.getLast?, choice.isClosed = true) ∨ setting.LogicalEndsAt stop)
      ?_ ?_ fun _ _ => id
    · refine ⟨trivial, fun choice stop reads _ => ?_⟩
      simpa using logicalEndsAt_of_choice reads
    · refine fun choices index _ _ _ => ⟨trivial, fun choice stop reads moved => ?_⟩
      exact ⟨Nat.lt_trans (Nat.lt_succ_self index) moved.1,
        by simpa using logicalEndsAt_of_choice reads⟩
  have readsList : Reads setting choiceList start (.done choices stop) := reads.readsBy
  have ended := Meets.of_calls (fun _ _ _ _ => Rule.stop_of_reads) list readsList
  exact ended

/-- Where a logical operator and a relation stand behind the choices of a membership test, the test
is their left operand; and then the last choice is a range or `others`. -/
theorem expression_of_membership_logical {tested right : Expr} {op logical : Op}
    {choices : List Choice} {last : Nat}
    (readsTested : Reads setting (expr .simpleExpr) start (.done tested middle))
    (next : setting.OperatorAt Op.membership op middle)
    (readsChoices : Reads setting (call .choiceList) (middle + op.words.length) (.done choices stop))
    (nextLogical : setting.OperatorAt Op.logical logical stop)
    (readsRight : Reads setting (expr .relation) (stop + logical.words.length) (.done right last))
    (ends : setting.buffer.kind last ∉ Op.starters Op.logical) :
    (∃ span, Reads setting (expr .expression) start
      (.done (.ofBinary (.membership tested op choices span) logical right) last)) ∧
      ∀ choice ∈ choices.getLast?, choice.isClosed = true := by
  obtain ⟨span, readsMembership⟩ := reads_relation_membership readsTested next readsChoices
  refine ⟨⟨span, reads_expression_logical readsMembership nextLogical readsRight ends⟩, ?_⟩
  rcases logicalEndsAt_of_choiceList readsChoices with closed | ended
  · exact closed
  · exact absurd readsRight (ended logical right last nextLogical)

/-- The choices before the last one, each with a bar behind it, and the last one. -/
theorem reads_choiceList_concat {before : List Choice} {last : Choice} {place : Nat}
    (readsBefore : setting.ReadsChoices before start place)
    (readsLast : Reads setting (call .choice) place (.done last stop))
    (ends : setting.buffer.kind stop ≠ .pipe) :
    Reads setting (call .choiceList) start (.done (before ++ [last]) stop) := by
  cases before with
  | nil =>
      cases readsBefore
      exact .call (reads_separated_one (by decide) readsLast ends)
  | cons first more =>
      obtain ⟨middle, readsFirst, bar, readsMore⟩ := readsBefore
      have rest (more : List Choice) {middle : Nat} (bar : setting.buffer.kind middle = .pipe)
          (readsMore : setting.ReadsChoices more (middle + 1) place) :
          setting.ReadsMore .pipe (call .choice) (more ++ [last]) middle stop := by
        induction more generalizing middle with
        | nil =>
            cases readsMore
            exact ⟨bar, stop, readsLast, rfl⟩
        | cons choice more ih =>
            obtain ⟨next, readsChoice, bar', readsMore⟩ := readsMore
            exact ⟨bar, next, readsChoice, ih bar' readsMore⟩
      exact .call (reads_separated (by decide) readsFirst (rest more bar readsMore) ends)

end

section

open Program Grammar

variable {tokens : List Token} {file : String} {options : Options}

/-- Behind a membership test whose last choice is a range, a logical operator and a relation get the
test as their left operand. Behind one whose last choice is a simple expression, they get that choice,
and the whole is a membership test. -/
theorem parse_membership_logical {tested right : Expr} {op logical : Op} {before : List Choice}
    {middle place stop last : Nat}
    (readsTested : Reads (Parser.ofTokens tokens file options).setting (expr .simpleExpr) 0
      (.done tested middle))
    (next : (Parser.ofTokens tokens file options).setting.OperatorAt Op.membership op middle)
    (readsBefore : (Parser.ofTokens tokens file options).setting.ReadsChoices before
      (middle + op.words.length) place)
    (nextLogical : (Parser.ofTokens tokens file options).setting.OperatorAt Op.logical logical stop)
    (readsRight : Reads (Parser.ofTokens tokens file options).setting (expr .relation)
      (stop + logical.words.length) (.done right last))
    (ended : (Buffer.ofTokens tokens file).kind last = .eof) :
    (∀ bounds, Reads (Parser.ofTokens tokens file options).setting (expr .discreteRange) place
        (.done bounds stop) →
      ∃ span, parse tokens file options = .accepted
        (.ofBinary (.membership tested op (before ++ [.expr bounds]) span) logical right)) ∧
    ∀ plain, Reads (Parser.ofTokens tokens file options).setting (expr .simpleExpr) place
        (.done plain stop) →
      ∃ span, parse tokens file options = .accepted
        (.membership tested op (before ++ [.expr (.ofBinary plain logical right)]) span) := by
  have kind : (Parser.ofTokens tokens file options).setting.buffer.kind last = .eof := ended
  have apart : ∀ kind ∈ Op.starters Op.logical, kind ≠ .pipe ∧
      kind ∉ Op.starters (Op.relational ++ Op.membership) := by decide
  have ends : (Parser.ofTokens tokens file options).setting.buffer.kind last ∉
      Op.starters Op.logical := by
    rw [kind]
    decide
  constructor
  · intro bounds readsBounds
    have list := reads_choiceList_concat readsBefore (reads_choice_range readsBounds)
      (apart _ nextLogical.kind_mem).1
    obtain ⟨span, test⟩ := reads_relation_membership readsTested next list
    exact ⟨span, parse_accepted_iff.mpr
      ⟨last, reads_expression_logical test nextLogical readsRight ends, ended⟩⟩
  · intro plain readsPlain
    -- The choice is no range, so it is read as an expression, which takes the operator.
    have relation := reads_relation readsPlain (apart _ nextLogical.kind_mem).2
    have choice := reads_choice_expression
      (reads_expression_logical relation nextLogical readsRight ends) (by rw [kind]; decide)
    have list := reads_choiceList_concat readsBefore choice (by rw [kind]; decide)
    obtain ⟨span, test⟩ := reads_relation_membership readsTested next list
    exact ⟨span, parse_accepted_iff.mpr ⟨last, reads_expression test ends, ended⟩⟩

/-- `1 in 2 | 3 .. 4 and 5`. -/
theorem parse_membership_logical_range :
    let number (text : String) : Token := ⟨.number, text, default⟩
    let tree (text : String) : Expr := .literal .number (number text)
    let tokens : List Token := [number "1", ⟨.kwIn, "in", default⟩, number "2",
      ⟨.pipe, "|", default⟩, number "3", ⟨.dotDot, "..", default⟩, number "4",
      ⟨.kwAnd, "and", default⟩, number "5"]
    let setting := (Parser.ofTokens tokens "" .lenient).setting
    let before : List Choice := [.expr (tree "2")]
    let bounds : Expr := .ofBinary (tree "3") .range (tree "4")
    Reads setting (expr .simpleExpr) 0 (.done (tree "1") 1) ∧
      setting.OperatorAt Op.membership .isIn 1 ∧ setting.ReadsChoices before 2 4 ∧
      setting.OperatorAt Op.logical .and 7 ∧
      Reads setting (expr .relation) 8 (.done (tree "5") 9) ∧
      (Buffer.ofTokens tokens "").kind 9 = .eof ∧
      Reads setting (expr .discreteRange) 4 (.done bounds 7) ∧
      ∃ span, parse tokens "" .lenient = .accepted
        (.ofBinary (.membership (tree "1") .isIn (before ++ [.expr bounds]) span) .and
          (tree "5")) := by
  intro number tree tokens setting before bounds
  have tested : Reads setting (expr .simpleExpr) 0 (.done (tree "1") 1) :=
    Rule.reads_of_run _ (by cbv) (by cbv)
  have first : Reads setting (call .choice) 2 (.done (.expr (tree "2")) 3) :=
    Rule.reads_of_run _ (by cbv) (by cbv)
  have relation : Reads setting (expr .relation) 8 (.done (tree "5") 9) :=
    Rule.reads_of_run _ (by cbv) (by cbv)
  have range : Reads setting (expr .discreteRange) 4 (.done bounds 7) :=
    Rule.reads_of_run _ (by cbv) (by cbv)
  have next : setting.OperatorAt Op.membership .isIn 1 := rfl
  have nextLogical : setting.OperatorAt Op.logical .and 7 := rfl
  have list : setting.ReadsChoices before 2 4 := ⟨3, first, rfl, rfl⟩
  exact ⟨tested, next, list, nextLogical, relation, rfl, range,
    (parse_membership_logical tested next list nextLogical relation rfl).1 bounds range⟩

/-- `X in A` is a membership test, and `A` a simple expression; but `X in A and B` tests `X` against
the one choice `A and B`. -/
theorem membership_takes_logical :
    let name (text : String) : Token := ⟨.identifier, text, default⟩
    let tree (text : String) : Expr := .name (.simple ⟨.identifier, name text⟩)
    let isIn : Token := ⟨.kwIn, "in", default⟩
    let test (inner : Expr) : Expr := .membership (tree "X") .isIn [.expr inner] default
    let run (rule : ExprRule) (tokens : List Token) :=
      (Parser.ofTokens tokens "" .lenient).rule (.expr rule)
    ((run .relation [name "X", isIn, name "A"]).1 = .accepted (test (tree "A")) ∧
        (run .relation [name "X", isIn, name "A"]).2.hasTokens = false) ∧
      ((run .simpleExpr [name "A"]).1 = .accepted (tree "A") ∧
        (run .simpleExpr [name "A"]).2.hasTokens = false) ∧
      ((run .relation [name "B"]).1 = .accepted (tree "B") ∧
        (run .relation [name "B"]).2.hasTokens = false) ∧
      parse [name "X", isIn, name "A", ⟨.kwAnd, "and", default⟩, name "B"] "" .lenient =
        .accepted (test (.ofBinary (tree "A") .and (tree "B"))) := by
  refine ⟨⟨?_, ?_⟩, ⟨?_, ?_⟩, ⟨?_, ?_⟩, ?_⟩ <;> cbv

end

end AdaExpressions
