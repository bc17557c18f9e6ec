import Mathlib.Data.List.Permutation
import AdaExpressions.Proofs.Grammar.Derivation
import AdaExpressions.Proofs.Reading.Run

/-!
# What is accepted is in the grammar

Every rule reads a phrase: the tokens between the index where it starts and the index where it stops
derive what it yields. Nothing is claimed of rules that fail; what an attempt in vain has read is
not a part of any phrase.

Result: `parse_derives`.
-/

namespace AdaExpressions

/-- The tokens from index `start` up to index `stop`. -/
def Setting.slice (setting : Setting) (start stop : Nat) : List Token :=
  (List.range' start (stop - start)).map setting.buffer.token

/-- A phrase of at least one token stands from `start` up to `stop`. -/
def Setting.PhraseAt (setting : Setting) (phrase : Phrase) (start : Nat) (node : phrase.Node)
    (stop : Nat) : Prop :=
  start < stop ∧ stop < setting.buffer.size ∧ Derives phrase (setting.slice start stop) node

namespace Setting

variable {setting : Setting} {start stop : Nat}

theorem slice_self : setting.slice start start = [] := by
  simp [slice]

theorem slice_cons (more : start < stop) :
    setting.slice start stop = setting.buffer.token start :: setting.slice (start + 1) stop := by
  obtain ⟨count, rfl⟩ : ∃ count, stop = start + count + 1 := ⟨stop - start - 1, by omega⟩
  simp [slice, show start + count + 1 - start = count + 1 by omega,
    show start + count + 1 - (start + 1) = count by omega, List.range'_succ]

theorem slice_append (middle : Nat) (first : start ≤ middle) (second : middle ≤ stop) :
    setting.slice start middle ++ setting.slice middle stop = setting.slice start stop := by
  obtain ⟨count, rfl⟩ := Nat.exists_eq_add_of_le first
  obtain ⟨further, rfl⟩ := Nat.exists_eq_add_of_le second
  simp only [slice, ← List.map_append, show start + count - start = count by omega,
    show start + count + further - (start + count) = further by omega,
    show start + count + further - start = count + further by omega, List.range'_append_1]

theorem slice_succ : setting.slice start (start + 1) = [setting.buffer.token start] := by
  simp [slice]

theorem slice_snoc (ordered : start ≤ stop) :
    setting.slice start (stop + 1) = setting.slice start stop ++ [setting.buffer.token stop] := by
  rw [← slice_append stop ordered (Nat.le_succ stop), slice_succ]

theorem slice_enclosed (ordered : start < stop) :
    setting.slice start (stop + 1) =
      setting.buffer.token start :: setting.slice (start + 1) stop ++ [setting.buffer.token stop] := by
  rw [slice_snoc (Nat.le_of_lt ordered), slice_cons ordered]

theorem slice_joined (middle : Nat) (first : start ≤ middle) (second : middle < stop) :
    setting.slice start stop =
      setting.slice start middle ++ setting.buffer.token middle :: setting.slice (middle + 1) stop := by
  rw [← slice_append middle first (Nat.le_of_lt second), slice_cons second]

theorem WordsAt.slice {kinds : List Kind} (words : setting.WordsAt kinds start) :
    (setting.slice start (start + kinds.length)).map Token.kind = kinds := by
  induction kinds generalizing start with
  | nil => simp [Setting.slice]
  | cons kind rest ih =>
      rw [slice_cons (by simp), List.map_cons, List.length_cons,
        show start + (rest.length + 1) = start + 1 + rest.length by omega, ih words.2]
      exact congrArg (· :: rest) words.1

theorem lastSpan_slice (more : start < stop) :
    lastSpan (setting.slice start stop) = (setting.extent start stop).last.span := by
  obtain ⟨last, rfl⟩ : ∃ last, stop = last + 1 := ⟨stop - 1, by omega⟩
  rw [slice_snoc (by omega)]
  simp [lastSpan, extent, show max start last = last by omega]

theorem extent_last_span (more : start + 1 < stop) :
    (setting.extent start stop).last.span = lastSpan (setting.slice (start + 1) stop) := by
  rw [lastSpan_slice more]
  simp [extent, show max start (stop - 1) = stop - 1 by omega,
    show max (start + 1) (stop - 1) = stop - 1 by omega]

theorem textSpan_slice (more : start < stop) :
    textSpan (setting.slice start stop) = (setting.extent start stop).span := by
  have last : lastSpan (setting.slice start stop) = _ := lastSpan_slice more
  rw [slice_cons more] at last ⊢
  simp only [lastSpan, List.getLast?_cons, Option.map_some, Option.getD_some] at last
  rw [Extent.span, ← last, ← List.getLastD_eq_getLast?, ← List.getLast_eq_getLastD]
  rfl

theorem PhraseAt.imp {phrase other : Phrase} {node : phrase.Node} {same : other.Node}
    (here : setting.PhraseAt phrase start node stop)
    (derives : ∀ {text : List Token}, Derives phrase text node → Derives other text same) :
    setting.PhraseAt other start same stop :=
  ⟨here.1, here.2.1, derives here.2.2⟩

theorem phraseAt_token {phrase : Phrase} {node : phrase.Node}
    (within : start + 1 < setting.buffer.size)
    (derives : Derives phrase [setting.buffer.token start] node) :
    setting.PhraseAt phrase start node (start + 1) :=
  ⟨Nat.lt_succ_self start, within, by rwa [slice_succ]⟩

/-- The words of an operator where they were found. -/
theorem WordsAt.spells {table : List Op} {op : Op} (known : op ∈ table)
    (words : setting.WordsAt op.words start) :
    op.Spells table (setting.slice start (start + op.words.length)) :=
  ⟨known, words.slice⟩

end Setting

/-- The phrases that a rule reads. -/
def ExprRule.phrase : ExprRule → ExprPhrase
  | .expression | .logicalChain => .expression
  | .relation => .relation
  | .simpleExpr | .addingChain => .simpleExpr
  | .unopTerm => .unopTerm
  | .term => .term
  | .factor => .factor
  | .primary | .oneOf .primary _ | .parenthesized | .numberLiteral | .nullLiteral => .primary
  | .characterLiteral | .stringLiteral | .directName | .oneOf .directName _ | .dereference =>
      .directName
  | .identifier => .identifier
  | .enumerationLiteral => .enumerationLiteral
  | .name => .name
  | .keywordAttribute => .attributeWord
  | .attributeDesignator => .attribute
  | .staticName => .staticName
  | .aggregate => .aggregate
  | .discreteRange => .discreteRange
  | .conditional | .oneOf .conditional _ => .conditional
  | .ifExpr => .ifExpr
  | .caseExpr => .caseExpr
  | .quantified => .quantified
  | .allocator => .allocator
  | .raiseExpr => .raise

def Rule.ReadsPhrase (setting : Setting) : (rule : Rule) → Nat → rule.Node → Nat → Prop
  | .expr rule => setting.PhraseAt (.expr rule.phrase)
  | .step _ => setting.PhraseAt .step
  | .choice => setting.PhraseAt .choice
  | .choiceList => setting.PhraseAt .choiceList
  | .aggregateAssociation => setting.PhraseAt .association
  | .parameterAssociation => setting.PhraseAt .parameter
  | .callSuffix => setting.PhraseAt .callSuffix
  | .loopSpec => setting.PhraseAt .loopSpec

/-- Rules may be called anywhere; each reads a phrase of its own. -/
def grammatical (setting : Setting) : Contract where
  allows _ _ := True
  ensures := Rule.ReadsPhrase setting

/-- Whatever the program reads from `start` is the phrase. -/
def Program.ReadsPhrase (setting : Setting) (phrase : Phrase) (program : Program phrase.Node)
    (start : Nat) : Prop :=
  program.Meets setting (grammatical setting) start (setting.PhraseAt phrase start)

@[simp] theorem grammatical_allows {setting : Setting} {rule : Rule} {index : Nat} :
    (grammatical setting).allows rule index ↔ True :=
  Iff.rfl

@[simp] theorem grammatical_expr {setting : Setting} {rule : ExprRule} {start stop : Nat}
    {value : Expr} :
    (grammatical setting).ensures (.expr rule) start value stop ↔
      setting.PhraseAt (.expr rule.phrase) start value stop :=
  Iff.rfl

namespace Grammar

variable {setting : Setting} {start : Nat}

open Program

/-! ### Operators -/

/-- Both operands of an operator and its words between them are one phrase. -/
theorem phraseAt_binary {phrase left right : ExprPhrase} {table : List Op} {op : Op}
    {middle stop : Nat} {first second : Expr}
    (derives : ∀ {text words more : List Token} {left_ right_ : Expr},
      Derives (.expr left) text left_ → op.Spells table words → Derives (.expr right) more right_ →
      Derives (.expr phrase) (text ++ words ++ more) (.ofBinary left_ op right_))
    (before : setting.PhraseAt (.expr left) start first middle) (known : op ∈ table)
    (words : setting.WordsAt op.words middle)
    (after : setting.PhraseAt (.expr right) (middle + op.words.length) second stop) :
    setting.PhraseAt (.expr phrase) start (.ofBinary first op second) stop := by
  obtain ⟨moved, _, derivesFirst⟩ := before
  obtain ⟨movedOn, within, derivesSecond⟩ := after
  refine ⟨by omega, within, ?_⟩
  rw [← Setting.slice_append (middle + op.words.length) (by omega) (by omega),
    ← Setting.slice_append middle (by omega) (by omega)]
  exact derives derivesFirst (words.spells known) derivesSecond

theorem leftChain_phrase {table : List Op} {first right : ExprRule} {phrase : ExprPhrase}
    (alone : ∀ {text : List Token} {expr : Expr},
      Derives (.expr first.phrase) text expr → Derives (.expr phrase) text expr)
    (derives : ∀ {text words more : List Token} {left_ right_ : Expr} {op : Op},
      Derives (.expr phrase) text left_ → op.Spells table words →
      Derives (.expr right.phrase) more right_ →
      Derives (.expr phrase) (text ++ words ++ more) (.ofBinary left_ op right_)) :
    (leftChain table first right).ReadsPhrase setting (.expr phrase) start := by
  refine meets_leftChain (setting.PhraseAt (.expr phrase) start) ?_ ?_ fun _ _ here => here
  · exact ⟨trivial, fun operand stop _ here => here.imp alone⟩
  · intro left middle op before known words
    refine ⟨trivial, fun operand stop _ after => ?_⟩
    have moved : middle + op.words.length < stop := after.1
    exact ⟨by omega, phraseAt_binary derives before known words after⟩

theorem logicalChain_phrase :
    logicalChain.ReadsPhrase setting (.expr .expression) start := by
  simp only [Program.ReadsPhrase, logicalChain, meets_bind]
  refine ⟨trivial, fun operand stop _ here => ?_⟩
  refine meets_iterate (fun chain index => setting.PhraseAt (.expr .expression) start chain.1 index)
    (here.imp .relation) ?_
  rintro ⟨left, previous⟩ middle before
  simp only [logicalStep, meets_bind, meets_nextOperator]
  split
  next op found =>
    refine meets_attemptRight (fun words => ⟨trivial, fun operand stop _ after => ?_⟩) before
    have moved : middle + op.words.length < stop := after.1
    have whole : setting.PhraseAt (.expr .expression) start (.ofBinary left op operand) stop :=
      phraseAt_binary .logical before (Op.mem_of_next? found) words after
    dsimp only
    split
    · simp
      exact ⟨fun _ => ⟨by omega, whole⟩, fun _ _ => ⟨by omega, whole⟩⟩
    · exact ⟨by omega, whole⟩
  next => exact before

/-- Operands are compared so far: from where the last one starts, any relation completes them. -/
def ComparedAt (setting : Setting) (start : Nat) (state : Compared × Expr) (index : Nat) : Prop :=
  ∃ middle, start ≤ middle ∧ setting.PhraseAt (.expr .simpleExpr) middle state.2 index ∧
    ∀ relation stop, setting.PhraseAt (.expr .relation) middle relation stop →
      setting.PhraseAt (.expr .relation) start (nestCompared state.1 relation) stop

theorem relation_phrase : relation.ReadsPhrase setting (.expr .relation) start := by
  simp only [Program.ReadsPhrase, relation, relationFrom, meets_bind]
  refine ⟨trivial, fun operand stop _ here => ?_⟩
  refine meets_iterate (ComparedAt setting start) ⟨start, Nat.le_refl _, here, fun _ _ => id⟩ ?_
  rintro ⟨compared, last⟩ index ⟨middle, ordered, before, completes⟩
  simp only [comparisonStep, meets_bind, meets_nextOperator]
  have ends : (membershipTest compared last).Meets setting (grammatical setting) index
      fun relation stop =>
        setting.PhraseAt (.expr .relation) start (nestCompared compared relation) stop := by
    have alone := completes last index (before.imp .simpleExpr)
    simp only [membershipTest, meets_bind, meets_nextOperator]
    split
    next op found =>
      refine meets_attemptRight (fun words => ⟨trivial, fun choices stop _ after => ?_⟩) alone
      obtain ⟨moved, _, derivesTested⟩ := before
      obtain ⟨movedOn, within, derivesChoices⟩ := after
      have whole : setting.PhraseAt (.expr .relation) middle (.membership last op choices
          (last.span.join ((choices.getLast?.map Choice.span).getD
            (setting.extent index (index + op.words.length)).span))) stop := by
        refine ⟨by omega, within, ?_⟩
        rw [← Setting.slice_append (index + op.words.length) (by omega) (by omega),
          ← Setting.slice_append index (by omega) (by omega),
          ← Setting.textSpan_slice words.operator.1]
        exact .membership derivesTested (words.spells (Op.mem_of_next? found)) derivesChoices
      simp only [forbidChained, meets_ite, meets_bind, meets_pure, meets_forbid]
      exact ⟨fun _ => completes _ _ whole, fun _ _ => completes _ _ whole⟩
    next => exact alone
  split
  next op found =>
    refine meets_attemptRight (fun words => ⟨trivial, fun operand stop _ after => ?_⟩) ends
    have moved : index + op.words.length < stop := after.1
    have further : ComparedAt setting start ((last, op) :: compared, operand) stop := by
      refine ⟨index + op.words.length, by have := before.1; omega, after, ?_⟩
      intro relation stop rest
      exact completes _ _
        (phraseAt_binary .comparison before (Op.mem_of_next? found) words rest)
    simp only [forbidChained, meets_ite, meets_bind, meets_pure, meets_forbid]
    exact ⟨fun _ => ⟨by omega, further⟩, fun _ _ => ⟨by omega, further⟩⟩
  next => exact ends

/-- An operator and the operand behind it are one phrase. -/
theorem phraseAt_unary {phrase operand : ExprPhrase} {table : List Op} {op : Op} {stop : Nat}
    {value : Expr}
    (derives : ∀ {words text : List Token} {value : Expr}, op.Spells table words →
      Derives (.expr operand) text value →
      Derives (.expr phrase) (words ++ text) (.ofUnary op (textSpan words) value))
    (known : op ∈ table) (words : setting.WordsAt op.words start)
    (after : setting.PhraseAt (.expr operand) (start + op.words.length) value stop) :
    setting.PhraseAt (.expr phrase) start
      (.ofUnary op (setting.extent start (start + op.words.length)).span value) stop := by
  obtain ⟨moved, within, derivesOperand⟩ := after
  refine ⟨by omega, within, ?_⟩
  rw [← Setting.slice_append (start + op.words.length) (by omega) (by omega),
    ← Setting.textSpan_slice words.operator.1]
  exact derives (words.spells known) derivesOperand

theorem unopTerm_phrase : unopTerm.ReadsPhrase setting (.expr .unopTerm) start := by
  refine meets_unary (fun op known words => ⟨trivial, fun operand stop _ after => ?_⟩) ?_
  · exact phraseAt_unary .signed known words after
  · exact ⟨trivial, fun operand stop _ here => here.imp .term⟩

theorem factor_phrase : factor.ReadsPhrase setting (.expr .factor) start := by
  refine meets_unary (fun op known words => ⟨trivial, fun operand stop _ after => ?_⟩) ?_
  · exact phraseAt_unary .highestUnary known words after
  · simp only [power, meets_bind, meets_nextOperator]
    refine ⟨trivial, fun base middle _ before => ?_⟩
    have alone : setting.PhraseAt (.expr .factor) start base middle :=
      before.imp .primary
    dsimp only
    split
    next op found =>
      refine meets_attemptRight (fun words => ⟨trivial, fun operand stop _ after => ?_⟩) alone
      exact phraseAt_binary .power before (Op.mem_of_next? found) words after
    next => exact alone

/-! ### Names -/

theorem literal_phrase {phrase : ExprPhrase} {form : LiteralForm} {kind : Kind} (more : kind ≠ .eof)
    (derives : ∀ {token : Token}, token.kind = kind →
      Derives (.expr phrase) [token] (.literal form token)) :
    (literal form kind).ReadsPhrase setting (.expr phrase) start := by
  simp only [Program.ReadsPhrase, literal, meets_bind]
  exact (meets_take more).mpr fun found within => Setting.phraseAt_token within (derives found)

theorem simpleName_phrase {phrase : ExprPhrase} {form : IdentForm}
    (derives : ∀ {token : Token},
      token.kind = (if form = .operatorSymbol then .string else .identifier) →
        Derives (.expr phrase) [token] (.name (.simple ⟨form, token⟩))) :
    (simpleName form).ReadsPhrase setting (.expr phrase) start := by
  simp only [Program.ReadsPhrase, simpleName, ident, meets_bind]
  refine (meets_take ?_).mpr fun found within => Setting.phraseAt_token within (derives found)
  split <;> decide

theorem dereference_phrase : dereference.ReadsPhrase setting (.expr .directName) start := by
  simp only [Program.ReadsPhrase, dereference, meets_bind]
  exact (meets_take (by decide)).mpr fun found within =>
    Setting.phraseAt_token within (.dereference found)

theorem keywordAttribute_phrase :
    keywordAttribute.ReadsPhrase setting (.expr .attributeWord) start := by
  simp only [Program.ReadsPhrase, keywordAttribute, meets_bind]
  rw [meets_takeOneOf (by decide)]
  exact fun found within => Setting.phraseAt_token within (.attributeWord found)

theorem attributeDesignator_phrase :
    attributeDesignator.ReadsPhrase setting (.expr .attribute) start := by
  refine ⟨⟨trivial, fun _ _ _ here => ?_⟩, fun _ => ⟨trivial, fun _ _ _ here => ?_⟩⟩
  · exact here.imp .reservedAttribute
  · exact here.imp .namedAttribute

theorem name_phrase : name.ReadsPhrase setting (.expr .name) start := by
  simp only [Program.ReadsPhrase, name, meets_bind]
  refine ⟨trivial, fun base stop _ here => ?_⟩
  refine meets_iterate (setting.PhraseAt (.expr .name) start) (here.imp .directName) ?_
  intro base middle before
  have extends_ (rule : StepRule) (step : NameStep) (stop : Nat)
      (after : (grammatical setting).ensures (.step rule) middle step stop) :
      middle < stop ∧ setting.PhraseAt (.expr .name) start (step.extend base) stop := by
    obtain ⟨moved, _, derivesBase⟩ := before
    obtain ⟨movedOn, within, derivesStep⟩ := after
    refine ⟨movedOn, by omega, within, ?_⟩
    rw [← Setting.slice_append middle (by omega) (by omega)]
    exact .extended derivesBase derivesStep
  simp only [StepRule.ordered, List.map_cons, List.map_nil, meets_bind, meets_firstOf_cons,
    meets_firstOf_nil, meets_call (.step _), meets_pure, Option.map_some, Option.map_none]
  refine ⟨⟨trivial, fun _ _ _ => extends_ _ _ _⟩, fun _ => ⟨⟨trivial, fun _ _ _ => extends_ _ _ _⟩,
    fun _ => ⟨⟨trivial, fun _ _ _ => extends_ _ _ _⟩, fun _ => ⟨⟨trivial, fun _ _ _ => extends_ _ _ _⟩,
    fun _ => before⟩⟩⟩⟩

theorem callStep_phrase : callStep.ReadsPhrase setting .step start := by
  simp only [Program.ReadsPhrase, callStep, meets_bind]
  rw [meets_take (by decide)]
  refine fun opened _ => ⟨trivial, fun suffix stop _ inner => ?_⟩
  refine (meets_take (by decide)).mpr fun closed within => ?_
  obtain ⟨moved, _, derives⟩ := inner
  refine ⟨by omega, within, ?_⟩
  rw [Setting.slice_enclosed (by omega)]
  exact .callStep opened derives closed

theorem selectionStep_phrase : selectionStep.ReadsPhrase setting .step start := by
  simp only [Program.ReadsPhrase, selectionStep, meets_bind]
  rw [meets_take (by decide)]
  refine fun dot _ => ⟨trivial, fun selector stop _ inner => ?_⟩
  obtain ⟨moved, within, derives⟩ := inner
  refine ⟨by omega, within, ?_⟩
  rw [Setting.slice_cons (by omega)]
  exact .selection dot derives

theorem attributeStep_phrase : attributeStep.ReadsPhrase setting .step start := by
  simp only [Program.ReadsPhrase, attributeStep, meets_bind, meets_extent]
  rw [meets_take (by decide)]
  refine fun tick _ => ⟨trivial, fun designator middle _ inner => ?_⟩
  obtain ⟨moved, within, derives⟩ := inner
  rw [meets_attempt, meets_parenthesized]
  refine ⟨fun opened _ => ⟨trivial, fun arguments stop _ inner => ?_⟩, fun _ => ?_⟩
  · intro closed within
    obtain ⟨movedOn, _, derivesArguments⟩ := inner
    refine ⟨by omega, within, ?_⟩
    rw [← Setting.lastSpan_slice (by omega), Setting.slice_enclosed (by omega),
      Setting.slice_joined middle (by omega) (by omega)]
    simp only [lastSpan, List.getLast?_concat, Option.map_some, Option.getD_some]
    exact .attributeCall tick derives opened derivesArguments closed
  · refine ⟨by omega, within, ?_⟩
    rw [Setting.extent_last_span (by omega), Setting.slice_cons (by omega)]
    exact .attributeStep tick derives

theorem qualificationStep_phrase : qualificationStep.ReadsPhrase setting .step start := by
  simp only [Program.ReadsPhrase, qualificationStep, meets_bind, meets_extent]
  rw [meets_take (by decide)]
  refine fun tick _ => ?_
  rw [meets_orElse, meets_parenthesized]
  refine ⟨fun opened _ => ⟨trivial, fun operand stop _ inner => ?_⟩, fun _ =>
    ⟨trivial, fun operand stop _ inner => ?_⟩⟩
  · intro closed within
    obtain ⟨moved, _, derives⟩ := inner
    refine ⟨by omega, within, ?_⟩
    rw [← Setting.lastSpan_slice (by omega), Setting.slice_enclosed (by omega),
      Setting.slice_cons (by omega)]
    simp only [lastSpan, List.getLast?_concat, Option.map_some, Option.getD_some]
    exact .qualification tick opened derives closed
  · obtain ⟨moved, within, derives⟩ := inner
    refine ⟨by omega, within, ?_⟩
    rw [Setting.extent_last_span (by omega), Setting.slice_cons (by omega)]
    exact .aggregateQualification tick derives

theorem staticPart_meets {goal : Ident → Nat → Prop}
    (reached : ∀ ident stop, setting.PhraseAt .staticPart start ident stop → goal ident stop) :
    staticPart.Meets setting (grammatical setting) start goal :=
  meets_staticPart.mpr
    ⟨fun found within => reached _ _ (Setting.phraseAt_token within (.staticSymbol found)),
      fun found within => reached _ _ (Setting.phraseAt_token within (.staticIdentifier found))⟩

theorem staticName_phrase : staticName.ReadsPhrase setting (.expr .staticName) start := by
  simp only [Program.ReadsPhrase, staticName, meets_bind]
  refine staticPart_meets fun ident stop here => ?_
  refine meets_iterate
    (fun base index => setting.PhraseAt (.expr .staticName) start (.name base) index)
    (here.imp .staticName) ?_
  intro base middle before
  simp only [meets_bind, meets_nextKind, meets_ite, meets_attempt, meets_pure]
  refine ⟨fun dot => ⟨(meets_take (by decide)).mpr fun _ _ => ?_, fun _ => before⟩, fun _ => before⟩
  refine staticPart_meets fun ident stop after => ?_
  obtain ⟨moved, _, derivesBase⟩ := before
  obtain ⟨movedOn, within, derivesPart⟩ := after
  refine ⟨by omega, by omega, within, ?_⟩
  rw [Setting.slice_joined middle (by omega) (by omega)]
  exact .staticSelection derivesBase dot derivesPart

/-! ### Parameters and choices -/

theorem discreteRange_phrase : discreteRange.ReadsPhrase setting (.expr .discreteRange) start := by
  simp only [Program.ReadsPhrase, discreteRange, meets_bind]
  refine ⟨trivial, fun low middle _ before => (meets_take (by decide)).mpr fun dots _ => ?_⟩
  refine ⟨trivial, fun high stop _ after => ?_⟩
  obtain ⟨moved, _, derivesLow⟩ := before
  obtain ⟨movedOn, within, derivesHigh⟩ := after
  refine ⟨by omega, within, ?_⟩
  rw [Setting.slice_joined middle (by omega) (by omega)]
  exact .discreteRange derivesLow dots derivesHigh

theorem rangeOrExpr_meets {goal : Expr → Nat → Prop}
    (reached : ∀ expr stop, setting.PhraseAt (.expr .rangeOrExpr) start expr stop → goal expr stop) :
    (orElse (expr .discreteRange) (expr .expression)).Meets setting (grammatical setting) start
      goal :=
  ⟨⟨trivial, fun _ _ _ here => reached _ _ (here.imp .range)⟩,
    fun _ => ⟨trivial, fun _ _ _ here => reached _ _ (here.imp .expression)⟩⟩

theorem choice_phrase : choice.ReadsPhrase setting .choice start := by
  simp only [Program.ReadsPhrase, choice, meets_bind, meets_firstOf_cons, meets_firstOf_nil]
  refine ⟨⟨trivial, fun _ _ _ here => ?_⟩, fun _ => ⟨⟨trivial, fun _ _ _ here => ?_⟩, fun _ => ?_⟩⟩
  · exact (here.imp .range).imp .exprChoice
  · exact (here.imp .expression).imp .exprChoice
  · simp
    exact fun found within => Setting.phraseAt_token within (.others found)

/-- Items joined by separators are one phrase. -/
theorem separated_phrase (phrase list : Phrase) (fold : List phrase.Node → list.Node)
    {separator : Kind} {item : Program phrase.Node} (more : separator ≠ .eof)
    (single : ∀ {text : List Token} {node : phrase.Node},
      Derives phrase text node → Derives list text (fold [node]))
    (further : ∀ {text next : List Token} {between : Token} {nodes : List phrase.Node}
      {node : phrase.Node}, Derives list text (fold nodes) → between.kind = separator →
      Derives phrase next node → Derives list (text ++ between :: next) (fold (nodes ++ [node])))
    (items : ∀ index, item.ReadsPhrase setting phrase index) :
    (separated separator item).Meets setting (grammatical setting) start fun nodes stop =>
      setting.PhraseAt list start (fold nodes) stop := by
  refine meets_separated more (fun nodes stop => setting.PhraseAt list start (fold nodes) stop)
    ?_ ?_ fun _ _ => id
  · exact (items start).mono fun node stop here => here.imp single
  · intro nodes middle before found _
    refine (items (middle + 1)).mono fun node stop after => ?_
    obtain ⟨moved, _, derivesNodes⟩ := before
    obtain ⟨movedOn, within, derivesNode⟩ := after
    refine ⟨by omega, by omega, within, ?_⟩
    rw [Setting.slice_joined middle (by omega) (by omega)]
    exact further derivesNodes found derivesNode

theorem choiceList_phrase : choiceList.ReadsPhrase setting .choiceList start :=
  separated_phrase .choice .choiceList id (by decide) .choice .moreChoices
    fun _ => ⟨trivial, fun _ _ _ => id⟩

theorem parameterDesignator_meets {goal : Designator → Nat → Prop}
    (reached : ∀ designator stop,
      setting.PhraseAt .parameterDesignator start designator stop → goal designator stop) :
    parameterDesignator.Meets setting (grammatical setting) start goal := by
  simp only [parameterDesignator, meets_bind, meets_nextKind, meets_ite]
  refine ⟨fun _ => (meets_take (by decide)).mpr fun found within => ?_, fun _ => ?_⟩
  · exact reached _ _ (Setting.phraseAt_token within (.parameterOthers found))
  · exact staticPart_meets fun ident stop here => reached _ _ (here.imp .parameterName)

/-- A value behind a designator and an arrow. -/
theorem phraseAt_associated {phrase designator value : Phrase} {node : phrase.Node}
    {first : designator.Node} {second : value.Node} {middle stop : Nat}
    (derives : ∀ {text more : List Token} {arrow : Token}, text = setting.slice start middle →
      Derives designator text first → arrow.kind = .arrow → Derives value more second →
      Derives phrase (text ++ arrow :: more) node)
    (before : setting.PhraseAt designator start first middle)
    (arrow : setting.buffer.kind middle = .arrow)
    (after : setting.PhraseAt value (middle + 1) second stop) :
    setting.PhraseAt phrase start node stop := by
  obtain ⟨moved, _, derivesFirst⟩ := before
  obtain ⟨movedOn, within, derivesSecond⟩ := after
  refine ⟨by omega, within, ?_⟩
  rw [Setting.slice_joined middle (by omega) (by omega)]
  exact derives rfl derivesFirst arrow derivesSecond

theorem box_phrase : box.ReadsPhrase setting (.expr .value) start :=
  meets_box.mpr fun found within => Setting.phraseAt_token within (.box found)

theorem parameterAssociation_phrase :
    parameterAssociation.ReadsPhrase setting .parameter start := by
  have value (index : Nat) :
      (orElse (expr .expression) box).ReadsPhrase setting (.expr .value) index :=
    ⟨⟨trivial, fun _ _ _ here => here.imp .value⟩, fun _ => box_phrase⟩
  simp only [Program.ReadsPhrase, parameterAssociation, meets_bind, meets_attempt]
  refine ⟨parameterDesignator_meets fun designator middle before => ?_, fun _ => ?_⟩
  · refine (meets_take (by decide)).mpr fun arrow _ => ?_
    exact (value (middle + 1)).mono fun _ _ after =>
      phraseAt_associated (fun _ => .named) before arrow after
  · exact (value start).mono fun _ _ here => here.imp .positional

theorem callSuffix_phrase : callSuffix.ReadsPhrase setting .callSuffix start := by
  simp only [Program.ReadsPhrase, callSuffix, meets_bind, meets_attempt]
  refine ⟨⟨trivial, fun _ _ _ here => here.imp .slice⟩, fun _ => ?_⟩
  have items (index : Nat) :
      (call .parameterAssociation).ReadsPhrase setting .parameter index :=
    ⟨trivial, fun _ _ _ => id⟩
  refine (separated_phrase .parameter .parameters id (by decide) .parameter .moreParameters
    items).mono ?_
  exact fun _ _ here => here.imp .parameters

/-! ### Aggregates -/

theorem aggregateAssociation_phrase :
    aggregateAssociation.ReadsPhrase setting .association start := by
  simp only [Program.ReadsPhrase, aggregateAssociation, aggregateDesignator, meets_bind,
    meets_attempt, meets_extent, meets_pure, meets_nextKind, meets_ite]
  refine ⟨⟨trivial, fun choices middle _ before => ?_⟩, fun _ => ⟨fun _ => ?_, fun _ => ?_⟩⟩
  · refine (meets_take (by decide)).mpr fun arrow _ => ?_
    have whole {value : Expr} {stop : Nat}
        (after : setting.PhraseAt (.expr .value) (middle + 1) value stop) :
        setting.PhraseAt .association start
          (.of (some (.ofChoices choices (setting.extent start middle).span)) value) stop := by
      rw [← Setting.textSpan_slice before.1]
      exact phraseAt_associated (fun text => text ▸ .chosen) before arrow after
    refine ⟨fun _ => box_phrase.mono fun _ _ => whole, fun _ => ⟨trivial, fun _ _ _ after => ?_⟩⟩
    exact whole (after.imp .value)
  · exact box_phrase.mono fun _ _ here => here.imp .component
  · exact ⟨trivial, fun _ _ _ here => (here.imp .value).imp .component⟩

theorem aggregateContent_phrase : aggregateContent.ReadsPhrase setting .aggregateContent start := by
  simp only [Program.ReadsPhrase, aggregateContent, meets_bind, meets_peek, meets_ite]
  refine ⟨fun _ => ?_, fun _ => ?_⟩
  · refine (meets_take (by decide)).mpr fun null _ => (meets_take (by decide)).mpr fun record within => ?_
    refine ⟨by omega, within, ?_⟩
    rw [Setting.slice_cons (by omega), Setting.slice_succ]
    exact .nullRecord null record
  · have items (index : Nat) :
        (call .aggregateAssociation).ReadsPhrase setting .association index :=
      ⟨trivial, fun _ _ _ => id⟩
    refine (separated_phrase .association .associations id (by decide) .association
      .moreAssociations items).mono ?_
    exact fun _ _ here => here.imp .fields

theorem aggregate_phrase : aggregate.ReadsPhrase setting (.expr .aggregate) start := by
  simp only [Program.ReadsPhrase, aggregate, meets_bind, meets_extent, meets_parenthesized,
    meets_attempt]
  refine fun opened _ => ⟨⟨trivial, fun ancestor middle _ before => ?_⟩, fun _ => ?_⟩
  · refine (meets_take (by decide)).mpr fun word _ => ?_
    refine aggregateContent_phrase.mono fun content stop after closed within => ?_
    obtain ⟨moved, _, derivesAncestor⟩ := before
    obtain ⟨movedOn, _, derivesContent⟩ := after
    refine ⟨by omega, within, ?_⟩
    rw [← Setting.textSpan_slice (by omega), Setting.slice_enclosed (by omega),
      Setting.slice_joined middle (by omega) (by omega)]
    exact .extension opened derivesAncestor word derivesContent closed
  · refine aggregateContent_phrase.mono fun content stop inner closed within => ?_
    obtain ⟨moved, _, derives⟩ := inner
    refine ⟨by omega, within, ?_⟩
    rw [← Setting.textSpan_slice (by omega), Setting.slice_enclosed (by omega)]
    exact .plainAggregate opened derives closed

/-! ### Conditional expressions -/

theorem parenthesizedExpr_phrase : parenthesizedExpr.ReadsPhrase setting (.expr .primary) start := by
  simp only [Program.ReadsPhrase, parenthesizedExpr, meets_parenthesized]
  refine fun opened _ => ⟨⟨trivial, fun inner stop _ here closed within => ?_⟩,
    fun _ => ⟨trivial, fun inner stop _ here closed within => ?_⟩⟩
  all_goals
    obtain ⟨moved, _, derives⟩ := here
    refine ⟨by omega, within, ?_⟩
    rw [Setting.slice_enclosed (by omega)]
  · exact .parenthesizedConditional opened derives closed
  · exact .parenthesized opened derives closed

theorem consequence_phrase : consequence.ReadsPhrase setting .consequence start := by
  simp only [Program.ReadsPhrase, consequence, meets_bind]
  refine ⟨trivial, fun condition middle _ before => (meets_take (by decide)).mpr fun word _ => ?_⟩
  refine ⟨trivial, fun value stop _ after => ?_⟩
  obtain ⟨moved, _, derivesCondition⟩ := before
  obtain ⟨movedOn, within, derivesValue⟩ := after
  refine ⟨by omega, within, ?_⟩
  rw [Setting.slice_joined middle (by omega) (by omega)]
  exact .consequence derivesCondition word derivesValue

theorem elsifParts_meets {goal : List ElsifPart → Nat → Prop}
    (within : start < setting.buffer.size)
    (reached : ∀ parts stop, start ≤ stop → stop < setting.buffer.size →
      Derives .elsifParts (setting.slice start stop) parts → goal parts stop) :
    elsifParts.Meets setting (grammatical setting) start goal := by
  simp only [elsifParts, meets_bind]
  refine meets_iterate (fun parts stop => start ≤ stop ∧ stop < setting.buffer.size ∧
    Derives .elsifParts (setting.slice start stop) parts.reverse) ?_ ?_
  · refine ⟨Nat.le_refl _, within, ?_⟩
    rw [Setting.slice_self]
    exact .noElsif
  · rintro parts middle ⟨ordered, within, derivesParts⟩
    simp only [meets_bind, meets_nextKind, meets_ite, meets_pure]
    refine ⟨fun _ => (meets_take (by decide)).mpr fun word _ => ?_,
      fun _ => reached _ _ ordered within derivesParts⟩
    refine consequence_phrase.mono fun part stop after => ?_
    obtain ⟨movedOn, within, derivesPart⟩ := after
    refine ⟨by omega, by omega, within, ?_⟩
    rw [Setting.slice_joined middle (by omega) (by omega), List.reverse_cons]
    exact .elsif derivesParts word derivesPart

theorem elsePart_meets {goal : Option Expr → Nat → Prop} (within : start < setting.buffer.size)
    (reached : ∀ part stop, start ≤ stop → stop < setting.buffer.size →
      Derives .elsePart (setting.slice start stop) part → goal part stop) :
    elsePart.Meets setting (grammatical setting) start goal := by
  simp only [elsePart, meets_bind, meets_nextKind, meets_ite, meets_pure]
  refine ⟨fun _ => (meets_take (by decide)).mpr fun word _ => ⟨trivial, fun value stop _ here => ?_⟩,
    fun _ => ?_⟩
  · obtain ⟨moved, within, derives⟩ := here
    refine reached _ _ (by omega) within ?_
    rw [Setting.slice_cons (by omega)]
    exact .else word derives
  · refine reached _ _ (Nat.le_refl _) within ?_
    rw [Setting.slice_self]
    exact .noElse

theorem ifExpr_phrase : ifExpr.ReadsPhrase setting (.expr .ifExpr) start := by
  simp only [Program.ReadsPhrase, ifExpr, meets_bind, meets_extent]
  refine (meets_take (by decide)).mpr fun word _ => ?_
  refine consequence_phrase.mono fun first middle before => ?_
  refine elsifParts_meets before.2.1 fun elsifs second ordered within derivesElsifs => ?_
  refine elsePart_meets within fun alternative stop orderedOn within derivesElse => ?_
  obtain ⟨moved, _, derivesFirst⟩ := before
  refine ⟨by omega, within, ?_⟩
  have text : setting.slice start stop = setting.buffer.token start ::
      setting.slice (start + 1) middle ++ setting.slice middle second ++
        setting.slice second stop := by
    rw [← Setting.slice_cons (by omega), Setting.slice_append middle (by omega) ordered,
      Setting.slice_append second (by omega) orderedOn]
  rw [← Setting.textSpan_slice (by omega), text]
  exact .ifExpr word derivesFirst derivesElsifs derivesElse

theorem caseAlternative_phrase : caseAlternative.ReadsPhrase setting .caseAlternative start := by
  simp only [Program.ReadsPhrase, caseAlternative, meets_bind]
  refine (meets_take (by decide)).mpr fun word _ => ⟨trivial, fun choices middle _ before => ?_⟩
  refine (meets_take (by decide)).mpr fun arrow _ => ⟨trivial, fun value stop _ after => ?_⟩
  obtain ⟨moved, _, derivesChoices⟩ := before
  obtain ⟨movedOn, within, derivesValue⟩ := after
  refine ⟨by omega, within, ?_⟩
  rw [Setting.slice_joined middle (by omega) (by omega), Setting.slice_cons (by omega)]
  exact .caseAlternative word derivesChoices arrow derivesValue

theorem caseExpr_phrase : caseExpr.ReadsPhrase setting (.expr .caseExpr) start := by
  simp only [Program.ReadsPhrase, caseExpr, meets_bind, meets_extent]
  refine (meets_take (by decide)).mpr fun word _ => ⟨trivial, fun subject middle _ before => ?_⟩
  refine (meets_take (by decide)).mpr fun is _ => ?_
  refine (separated_phrase .caseAlternative .caseAlternatives id (by decide) .caseAlternatives
    .moreAlternatives fun _ => caseAlternative_phrase).mono fun alternatives stop after => ?_
  obtain ⟨moved, _, derivesSubject⟩ := before
  obtain ⟨movedOn, within, derivesAlternatives⟩ := after
  refine ⟨by omega, within, ?_⟩
  rw [← Setting.textSpan_slice (by omega), Setting.slice_joined middle (by omega) (by omega),
    Setting.slice_cons (by omega)]
  exact .caseExpr word derivesSubject is derivesAlternatives

/-! ### Quantified expressions -/

theorem iterationSource_phrase :
    iterationSource.ReadsPhrase setting .iterationSource start := by
  simp only [Program.ReadsPhrase, iterationSource, constrainedSubtype, meets_orElse, meets_bind]
  refine ⟨⟨trivial, fun mark middle _ before => ?_⟩, fun _ => ?_⟩
  · refine (meets_take (by decide)).mpr fun word _ => ⟨trivial, fun constraint stop _ after => ?_⟩
    obtain ⟨moved, _, derivesMark⟩ := before
    obtain ⟨movedOn, within, derivesConstraint⟩ := after
    refine ⟨by omega, within, ?_⟩
    rw [Setting.slice_joined middle (by omega) (by omega)]
    exact .constrained derivesMark word derivesConstraint
  · exact rangeOrExpr_meets fun source stop here => here.imp .iterated

theorem loopSpec_phrase : loopSpec.ReadsPhrase setting .loopSpec start := by
  simp only [Program.ReadsPhrase, loopSpec, reversed, meets_bind]
  refine (meets_take (by decide)).mpr fun parameter _ => ?_
  refine (meets_takeOneOf (by decide)).mpr fun known _ => ?_
  have iteration : setting.buffer.kind (start + 1) =
      (if setting.buffer.kind (start + 1) = .kwIn then Iteration.values else .elements).word := by
    simp only [List.mem_cons, List.not_mem_nil, or_false] at known
    rcases known with found | found <;> simp [found, Iteration.word]
  simp only [meets_nextKind, meets_ite, meets_bind, meets_pure]
  refine ⟨fun _ => (meets_take (by decide)).mpr fun reverse _ => ?_, fun _ => ?_⟩
  · refine iterationSource_phrase.mono fun source stop after => ?_
    obtain ⟨moved, within, derives⟩ := after
    refine ⟨by omega, within, ?_⟩
    rw [Setting.slice_cons (by omega), Setting.slice_cons (by omega), Setting.slice_cons (by omega)]
    exact .reversedLoopSpec parameter iteration reverse derives
  · refine iterationSource_phrase.mono fun source stop after => ?_
    obtain ⟨moved, within, derives⟩ := after
    refine ⟨by omega, within, ?_⟩
    rw [Setting.slice_cons (by omega), Setting.slice_cons (by omega)]
    exact .loopSpec parameter iteration derives

theorem quantified_phrase : quantified.ReadsPhrase setting (.expr .quantified) start := by
  simp only [Program.ReadsPhrase, quantified, meets_bind]
  refine (meets_take (by decide)).mpr fun word _ => ?_
  refine (meets_takeOneOf (by decide)).mpr fun known _ => ?_
  have quantifier : setting.buffer.kind (start + 1) =
      (if setting.buffer.kind (start + 1) = .kwAll then Quantifier.universal
        else .existential).word := by
    simp only [List.mem_cons, List.not_mem_nil, or_false] at known
    rcases known with found | found <;> simp [found, Quantifier.word]
  refine ⟨trivial, fun loop middle _ before => (meets_take (by decide)).mpr fun arrow _ => ?_⟩
  refine rangeOrExpr_meets fun body stop after => ?_
  obtain ⟨moved, _, derivesLoop⟩ := before
  obtain ⟨movedOn, within, derivesBody⟩ := after
  refine ⟨by omega, within, ?_⟩
  rw [Setting.slice_joined middle (by omega) (by omega), Setting.slice_cons (by omega),
    Setting.slice_cons (by omega)]
  exact .quantified word quantifier derivesLoop arrow derivesBody

/-! ### Allocators and raise expressions -/

theorem allocator_phrase : allocator.ReadsPhrase setting (.expr .allocator) start := by
  simp only [Program.ReadsPhrase, allocator, meets_bind, meets_attempt, meets_parenthesized]
  refine (meets_take (by decide)).mpr fun word _ => ⟨fun opened _ => ?_, fun _ => ?_⟩
  · refine ⟨trivial, fun subpool middle _ before closed _ => ?_⟩
    refine ⟨trivial, fun designated stop _ after => ?_⟩
    obtain ⟨moved, _, derivesSubpool⟩ := before
    obtain ⟨movedOn, within, derivesDesignated⟩ := after
    refine ⟨by omega, within, ?_⟩
    rw [Setting.slice_joined middle (by omega) (by omega), Setting.slice_cons (by omega),
      Setting.slice_cons (by omega)]
    exact .newIn word opened derivesSubpool closed derivesDesignated
  · refine ⟨trivial, fun designated stop _ after => ?_⟩
    obtain ⟨moved, within, derives⟩ := after
    refine ⟨by omega, within, ?_⟩
    rw [Setting.slice_cons (by omega)]
    exact .new word derives

theorem raiseExpr_phrase : raiseExpr.ReadsPhrase setting (.expr .raise) start := by
  simp only [Program.ReadsPhrase, raiseExpr, raiseParts, meets_bind, meets_extent, meets_attempt]
  refine (meets_take (by decide)).mpr fun word within => ⟨?_, fun _ => ?_⟩
  · refine ⟨trivial, fun exception middle _ before => ?_⟩
    refine ⟨(meets_take (by decide)).mpr fun with_ _ => ⟨trivial, fun message stop _ after => ?_⟩,
      fun _ => ?_⟩
    · obtain ⟨moved, _, derivesException⟩ := before
      obtain ⟨movedOn, within, derivesMessage⟩ := after
      refine ⟨by omega, within, ?_⟩
      rw [← Setting.textSpan_slice (by omega), Setting.slice_joined middle (by omega) (by omega),
        Setting.slice_cons (by omega)]
      exact .raiseMessage word derivesException with_ derivesMessage
    · obtain ⟨moved, within, derivesException⟩ := before
      refine ⟨by omega, within, ?_⟩
      rw [← Setting.textSpan_slice (by omega), Setting.slice_cons (by omega)]
      exact .raiseName word derivesException
  · refine ⟨by omega, within, ?_⟩
    rw [← Setting.textSpan_slice (by omega), Setting.slice_succ]
    exact .reraise word

end Grammar

theorem ChoiceTable.program_phrase {setting : Setting} {start : Nat} (table : ChoiceTable)
    (label : String) :
    (table.program label).ReadsPhrase setting (.expr (ExprRule.oneOf table label).phrase) start := by
  cases table
  all_goals
    simp only [Program.ReadsPhrase, program, alternatives, List.map_cons, List.map_nil,
      Program.meets_bind, Program.meets_firstOf_cons, Program.meets_firstOf_nil, Program.meets_expr,
      Program.meets_pure, Program.meets_fail, grammatical_allows, grammatical_expr, true_and,
      implies_true, and_true]
  case primary =>
    refine ⟨fun _ _ _ => id, fun _ => ⟨fun _ _ _ => id, fun _ => ⟨fun _ _ _ here => here.imp .name,
      fun _ => ⟨fun _ _ _ here => here.imp .allocator, fun _ =>
      ⟨fun _ _ _ here => here.imp .conditional, fun _ => ⟨fun _ _ _ here => here.imp .raise, fun _ =>
      ⟨fun _ _ _ => id, fun _ _ _ _ here => here.imp .aggregate⟩⟩⟩⟩⟩⟩⟩
  case conditional =>
    exact ⟨fun _ _ _ here => here.imp .ifConditional, fun _ =>
      ⟨fun _ _ _ here => here.imp .caseConditional,
        fun _ _ _ _ here => here.imp .quantifiedConditional⟩⟩
  case directName =>
    exact ⟨fun _ _ _ here => here.imp .simpleName, fun _ => ⟨fun _ _ _ => id, fun _ =>
      ⟨fun _ _ _ => id, fun _ => ⟨fun _ _ _ => id,
        fun _ _ _ _ here => here.imp .attributeName⟩⟩⟩⟩

theorem ExprRule.body_phrase {setting : Setting} {start : Nat} (rule : ExprRule) :
    rule.body.ReadsPhrase setting (.expr rule.phrase) start := by
  cases rule with
  | expression => exact ⟨trivial, fun _ _ _ => id⟩
  | logicalChain => exact Grammar.logicalChain_phrase
  | relation => exact Grammar.relation_phrase
  | simpleExpr => exact ⟨trivial, fun _ _ _ => id⟩
  | addingChain => exact Grammar.leftChain_phrase .unopTerm .adding
  | unopTerm => exact Grammar.unopTerm_phrase
  | term => exact Grammar.leftChain_phrase .factor .multiplying
  | factor => exact Grammar.factor_phrase
  | primary => exact ⟨trivial, fun _ _ _ => id⟩
  | oneOf table label => exact table.program_phrase label
  | parenthesized => exact Grammar.parenthesizedExpr_phrase
  | numberLiteral => exact Grammar.literal_phrase (by decide) .number
  | nullLiteral => exact Grammar.literal_phrase (by decide) .null
  | characterLiteral => exact Grammar.literal_phrase (by decide) .characterLiteral
  | stringLiteral => exact Grammar.simpleName_phrase (fun found => .stringLiteral found)
  | identifier => exact Grammar.simpleName_phrase (fun found => .identifier found)
  | enumerationLiteral => exact Grammar.simpleName_phrase (fun found => .enumerationLiteral found)
  | name => exact Grammar.name_phrase
  | directName => exact ⟨trivial, fun _ _ _ => id⟩
  | dereference => exact Grammar.dereference_phrase
  | keywordAttribute => exact Grammar.keywordAttribute_phrase
  | attributeDesignator => exact Grammar.attributeDesignator_phrase
  | staticName => exact Grammar.staticName_phrase
  | aggregate => exact Grammar.aggregate_phrase
  | discreteRange => exact Grammar.discreteRange_phrase
  | conditional => exact ⟨trivial, fun _ _ _ => id⟩
  | ifExpr => exact Grammar.ifExpr_phrase
  | caseExpr => exact Grammar.caseExpr_phrase
  | quantified => exact Grammar.quantified_phrase
  | allocator => exact Grammar.allocator_phrase
  | raiseExpr => exact Grammar.raiseExpr_phrase

/-- The body of every rule reads a phrase of the rule. -/
theorem Rule.body_phrase {setting : Setting} {start : Nat} (rule : Rule) :
    rule.body.Meets setting (grammatical setting) start
      ((grammatical setting).ensures rule start) := by
  cases rule with
  | expr rule => exact rule.body_phrase
  | step rule =>
      cases rule with
      | call => exact Grammar.callStep_phrase
      | selection => exact Grammar.selectionStep_phrase
      | attributeRef => exact Grammar.attributeStep_phrase
      | qualification => exact Grammar.qualificationStep_phrase
  | choice => exact Grammar.choice_phrase
  | choiceList => exact Grammar.choiceList_phrase
  | aggregateAssociation => exact Grammar.aggregateAssociation_phrase
  | parameterAssociation => exact Grammar.parameterAssociation_phrase
  | callSuffix => exact Grammar.callSuffix_phrase
  | loopSpec => exact Grammar.loopSpec_phrase

/-- What a rule reads is a phrase of the rule. -/
theorem Rule.phrase_of_reads {setting : Setting} {rule : Rule} {start stop : Nat}
    {value : rule.Node} (reads : Reads setting (.call rule) start (.done value stop)) :
    rule.ReadsPhrase setting start value stop :=
  Program.Meets.of_bodies (fun rule _ _ => rule.body_phrase)
    ((Program.meets_call rule).mpr ⟨trivial, fun _ _ _ => id⟩) reads

/-! ### Whole token lists -/

/-- The tokens of a list that are read: those before the first that ends the input. -/
def readable (tokens : List Token) : List Token :=
  tokens.takeWhile fun token => token.kind != .eof

theorem Buffer.readable_toList (tokens : List Token) (file : String) :
    readable (ofTokens tokens file).toList = readable tokens := by
  unfold ofTokens
  split
  next found =>
    have none_ : tokens = [] := by simpa using found
    rw [none_]
    rfl
  next last found =>
    split
    next closed =>
      have more : tokens ≠ [] := fun none_ => by simp [none_] at found
      have same : tokens.getLast more = last := by
        rw [List.getLast?_eq_some_getLast more] at found
        exact Option.some.inj found
      simp only [toList, ← same, List.dropLast_concat_getLast]
    next =>
      have none_ (position : Position) : readable [Token.eof position] = [] := rfl
      simp only [toList, readable, List.takeWhile_append]
      split
      next whole => simp [Token.eof, List.Sublist.eq_of_length (List.takeWhile_sublist _) whole]
      next => rfl

theorem Setting.slice_toList (setting : Setting) :
    setting.slice 0 setting.buffer.size = setting.buffer.toList := by
  refine List.ext_getElem? fun index => ?_
  simp only [slice, Nat.sub_zero, Buffer.toList, List.getElem?_map, List.getElem?_append,
    Array.length_toList, Array.getElem?_toList]
  by_cases inner : index < setting.buffer.body.size
  · simp [Buffer.size, Buffer.token, inner, Nat.lt_succ_of_lt inner]
  · by_cases last : index = setting.buffer.body.size
    · simp [Buffer.size, Buffer.token, last]
    · have past : ¬ index < setting.buffer.body.size + 1 := by omega
      simp [Buffer.size, past, inner]
      omega

/-- No token that is read ends the input. -/
theorem Reads.kind_ne_eof {setting : Setting} {α : Type} {program : Program α}
    {start stop : Nat} {value : α} (reads : Reads setting program start (.done value stop)) :
    ∀ index, start ≤ index → index < stop → setting.buffer.kind index ≠ .eof := by
  generalize result : Reading.done value stop = reading at reads
  induction reads generalizing stop with
  | @andThen _ _ _ _ _ middle _ _ _ _ ihFirst ihNext =>
      intro index after before
      by_cases early : index < middle
      · exact ihFirst rfl index after early
      · exact ihNext result index (Nat.le_of_not_lt early) before
  | take =>
      cases result
      intro index after before closed
      obtain rfl : index = _ := Nat.le_antisymm (by
        have := before
        unfold Buffer.next at this
        split at this <;> omega) after
      simp [Buffer.next, closed] at before
  | attempt _ ih => cases result; exact ih rfl
  | extent _ ih => cases result; exact ih rfl
  | iterateStop _ ih => cases result; exact ih rfl
  | @iterateNext _ _ _ _ _ middle _ _ _ ihStep ihRest =>
      intro index after before
      by_cases early : index < middle
      · exact ihStep rfl index after early
      · exact ihRest result index (Nat.le_of_not_lt early) before
  | remember _ ih => exact ih result
  | call _ ih => exact ih result
  | yield => cases result; exact fun index after before => absurd before (Nat.not_lt.mpr after)
  | peek => cases result; exact fun index after before => absurd before (Nat.not_lt.mpr after)
  | forbid _ => cases result; exact fun index after before => absurd before (Nat.not_lt.mpr after)
  | attemptNone _ _ =>
      cases result
      exact fun index after before => absurd before (Nat.not_lt.mpr after)
  | _ => cases result

/-- What is read up to the end of the input is all that is readable. -/
theorem Setting.slice_eq_readable {setting : Setting} {stop : Nat} {value : Expr}
    (reads : Reads setting (.expr .expression) 0 (.done value stop))
    (closed : setting.buffer.kind stop = .eof) :
    setting.slice 0 stop = readable setting.buffer.toList := by
  have within : stop < setting.buffer.size := (Rule.stop_of_reads reads).2
  have more : ∀ token ∈ setting.slice 0 stop, (token.kind != .eof) = true := by
    intro token member
    obtain ⟨index, inside, rfl⟩ := List.mem_map.mp member
    have before : index < stop := by
      have := List.mem_range'_1.mp inside
      omega
    exact bne_iff_ne.mpr (reads.kind_ne_eof index (Nat.zero_le index) before)
  have last : (setting.buffer.token stop).kind = .eof := closed
  rw [← slice_toList, ← slice_append stop (Nat.zero_le stop) (Nat.le_of_lt within),
    slice_cons within, readable, List.takeWhile_append_of_pos more, List.takeWhile_cons, last]
  simp

/-- What is accepted is derived: the readable tokens, all of them and in their order, are an
expression, and the tree is the tree of one of its derivations. -/
theorem parse_derives {tokens : List Token} {file : String} {options : Options} {expr : Expr}
    (accepted : parse tokens file options = .accepted expr) :
    Derives (.expr .expression) (readable tokens) expr := by
  obtain ⟨stop, reads, closed⟩ := parse_accepted_iff.mp accepted
  have phrase := Rule.phrase_of_reads reads
  have derives : Derives (.expr .expression) (_ : List Token) expr := phrase.2.2
  rw [Setting.slice_eq_readable reads closed] at derives
  exact Buffer.readable_toList tokens file ▸ derives

/-- The parentheses of `(1)` leave no node. -/
theorem parse_derives_parenthesized :
    let one : Token := ⟨.number, "1", default⟩
    let tokens : List Token := [⟨.openParen, "(", default⟩, one, ⟨.closeParen, ")", default⟩]
    parse tokens "" .strict = .accepted (.literal .number one) ∧
      Derives (.expr .expression) tokens (.literal .number one) := by
  intro one tokens
  have accepted : parse tokens "" .strict = .accepted (.literal .number one) := by cbv
  exact ⟨accepted, parse_derives accepted⟩

end AdaExpressions
