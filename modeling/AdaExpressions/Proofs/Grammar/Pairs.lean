import AdaExpressions.Proofs.Reading.Choosing
import AdaExpressions.Proofs.Reading.Run

/-!
# Parentheses are taken in pairs

A rule takes as many closing parentheses as opening ones. And it never asks whether a closing
parenthesis stands at an index, except to take one: what it looks at does not tell a closing
parenthesis from the end of the input.

Results: `Rule.body_pairs`, put together from one lemma for each combinator and each rule;
`Reads.depth_eq` (what is read has as many closing parentheses as opening ones).
-/

namespace AdaExpressions

/-! ### Open parentheses -/

/-- What a token adds to the number of open parentheses. -/
def Kind.nesting : Kind → Int
  | .openParen => 1
  | .closeParen => -1
  | _ => 0

/-- How many more parentheses are opened than closed before the index. -/
def Buffer.depth (buffer : Buffer) : Nat → Int
  | 0 => 0
  | index + 1 => buffer.depth index + (buffer.kind index).nesting

theorem Buffer.depth_next {buffer : Buffer} {index : Nat} {kind : Kind}
    (found : buffer.kind index = kind) (more : kind ≠ .eof) :
    buffer.depth (buffer.next index) = buffer.depth index + kind.nesting := by
  rw [Buffer.next_of_ne_eof (found ▸ more), Buffer.depth, found]

/-- The kinds seen at the end of some tokens if the input ends there, and if a closing parenthesis
follows. -/
inductive EndSeen : Kind × Kind → Kind × Kind → Prop
  | before (kinds : Kind × Kind) : EndSeen kinds kinds
  | last (kind : Kind) : EndSeen (kind, .eof) (kind, .closeParen)
  | behind (further : Kind) : EndSeen (.eof, .eof) (.closeParen, further)

namespace Op

/-- No operator has the end of the input or a parenthesis among its words. -/
theorem next?_of_endSeen (table : List Op) {ended closed : Kind × Kind}
    (seen : EndSeen ended closed) :
    next? table ended.1 ended.2 = next? table closed.1 closed.2 := by
  refine congrArg (table.find? ·) (funext fun op => ?_)
  cases seen with
  | before => rfl
  | last kind => cases op <;> rfl
  | behind further => cases op <;> rfl

end Op

/-! ### Programs that take parentheses in pairs -/

/-- Wherever the program is read, it takes a token. -/
def Program.Moves {α : Type} (program : Program α) : Prop :=
  ∀ setting index value stop, Reads setting program index (.done value stop) → index < stop

/-- The program takes `pending` closing parentheses more than opening ones, and what it looks at does
not tell the end of the input from a closing parenthesis. -/
inductive Program.Pairs : Nat → {α : Type} → Program α → Prop
  | yield {α : Type} (value : α) : Pairs 0 (.yield value)
  | andThen {pending : Nat} {α β : Type} {first : Program α} {next : α → Program β} :
      Pairs 0 first → (∀ value, Pairs pending (next value)) → Pairs pending (.andThen first next)
  /-- Behind an opening parenthesis there is one closing parenthesis more to take, behind a closing
  one there is one less. -/
  | taking {pending rest : Nat} {α : Type} {kind : Kind} {next : Token → Program α} :
      kind ≠ .eof → rest = pending + kind.nesting → (∀ token, Pairs rest (next token)) →
      Pairs pending (.andThen (.take kind) next)
  | peek {pending : Nat} {α : Type} {next : Kind × Kind → Program α} :
      (∀ ended closed, EndSeen ended closed → next ended = next closed) →
      (∀ kinds, Pairs pending (next kinds)) → Pairs pending (.andThen .peek next)
  | nextKind {pending : Nat} {α : Type} {next : Kind → Program α} :
      next .eof = next .closeParen → (∀ kind, Pairs pending (next kind)) →
      Pairs pending (.andThen nextKind next)
  | fail {α : Type} (objection : Objection) : Pairs 0 (.fail objection : Program α)
  | take {kind : Kind} : kind.nesting = 0 → kind ≠ .eof → Pairs 0 (.take kind)
  | forbid (violation : Violation) (token : Token) : Pairs 0 (.forbid violation token)
  | attempt {α : Type} {part : Program α} : Pairs 0 part → Pairs 0 (.attempt part)
  | extent {α : Type} {part : Program α} : part.Moves → Pairs 0 part → Pairs 0 (.extent part)
  | iterate {σ : Type} (value : σ) {step : σ → Program (Option σ)} :
      (∀ value, Pairs 0 (step value)) → Pairs 0 (.iterate value step)
  | remember (key : MemoKey) (rule : ExprRule) : Pairs 0 (.remember key rule)
  | call (rule : Rule) : Pairs 0 (.call rule)

namespace Program

variable {α β : Type}

/-! ### Programs that move on -/

theorem moves_call (rule : Rule) : (call rule).Moves :=
  fun _ _ _ _ reads => (Rule.stop_of_reads reads).1

theorem moves_take {kind : Kind} (more : kind ≠ .eof) : (take kind).Moves := by
  intro setting index value stop reads
  rcases reads.readsBy with ⟨found, same⟩ | ⟨_, same⟩
  · cases same
    rw [Buffer.next_of_ne_eof (found ▸ more)]
    exact Nat.lt_succ_self index
  · cases same

theorem Moves.andThen {first : Program α} {next : α → Program β} (moves : first.Moves) :
    (first >>= next).Moves := by
  intro setting index value stop reads
  obtain ⟨_, _, readsFirst, readsNext⟩ := reads_bind_done.mp reads
  exact Nat.lt_of_lt_of_le (moves _ _ _ _ readsFirst) readsNext.stop_bounds.1

theorem moves_takeAll {kinds : List Kind} (some_ : kinds ≠ []) (more : .eof ∉ kinds) :
    (takeAll kinds).Moves := by
  cases kinds with
  | nil => exact absurd rfl some_
  | cons kind rest =>
      exact (moves_take fun same => more (same ▸ List.mem_cons_self)).andThen

namespace Pairs

variable {pending : Nat}

theorem ite {condition : Prop} [Decidable condition] {yes no : Program α}
    (holds : Pairs pending yes) (fails : Pairs pending no) :
    Pairs pending (if condition then yes else no) := by
  split
  · exact holds
  · exact fails

theorem expr (rule : ExprRule) : Pairs 0 (Program.expr rule) :=
  .call (.expr rule)

/-- A part behind an opening parenthesis, and a closing one behind it. -/
theorem enclosed {inner : Program α} {next : α → Token → Program β} (part : Pairs 0 inner)
    (rest : ∀ value token, Pairs 0 (next value token)) :
    Pairs 0 (do
      let _ ← Program.take .openParen
      let value ← inner
      let token ← Program.take .closeParen
      next value token) :=
  have opens : ((1 : Nat) : Int) = (0 : Nat) + Kind.openParen.nesting := rfl
  have closes : ((0 : Nat) : Int) = (1 : Nat) + Kind.closeParen.nesting := rfl
  .taking (by decide) opens fun _ => .andThen part fun value =>
    .taking (by decide) closes (rest value)

theorem parenthesized {inner : Program α} (part : Pairs 0 inner) :
    Pairs 0 (Program.parenthesized inner) :=
  enclosed part fun value _ => .yield value

theorem takeOneOf (label : String) {kinds : List Kind}
    (others : ∀ kind ∈ kinds, kind.nesting = 0 ∧ kind ≠ .eof) :
    Pairs 0 (Program.takeOneOf label kinds) := by
  refine .nextKind ?_ fun kind => ?_
  · have ended : .eof ∉ kinds := fun member => (others _ member).2 rfl
    have closed : .closeParen ∉ kinds := fun member => absurd (others _ member).1 (by decide)
    rw [if_neg (by simpa using ended), if_neg (by simpa using closed)]
  · by_cases member : kind ∈ kinds
    · exact .ite (.take (others kind member).1 (others kind member).2) (.fail _)
    · rw [if_neg (by simpa using member)]
      exact .fail _

theorem orElse {first second : Program α} (one : Pairs 0 first) (two : Pairs 0 second) :
    Pairs 0 (Program.orElse first second) := by
  refine .andThen (.attempt one) fun value => ?_
  cases value with
  | none => exact two
  | some value => exact .yield value

theorem firstOf {parts : List (Program α)} (each : ∀ part ∈ parts, Pairs 0 part) :
    Pairs 0 (Program.firstOf parts) := by
  induction parts with
  | nil => exact .yield none
  | cons part more ih =>
      refine .andThen (.attempt (each part List.mem_cons_self)) fun value => ?_
      cases value with
      | none => exact ih fun part member => each part (List.mem_cons_of_mem _ member)
      | some value => exact .yield (some value)

/-- A part behind a word that says whether there is one. -/
theorem ifNext {kind : Kind} (other : kind.nesting = 0) (more : kind ≠ .eof)
    {yes no : Program α} (holds : Pairs 0 yes) (fails : Pairs 0 no) :
    Pairs 0 (do if (← Program.nextKind) = kind then yes else no) := by
  refine .nextKind ?_ fun _ => .ite holds fails
  have closed : Kind.closeParen ≠ kind := fun same => absurd (same ▸ other) (by decide)
  rw [if_neg (Ne.symm more), if_neg closed]

theorem separated {separator : Kind} (other : separator.nesting = 0) (more : separator ≠ .eof)
    {item : Program α} (each : Pairs 0 item) : Pairs 0 (Program.separated separator item) := by
  refine .andThen each fun first => .andThen (.iterate [] fun items => ?_) fun rest => .yield _
  refine ifNext other more ?_ (.yield none)
  refine .andThen (.attempt (.andThen (.take other more) fun _ => each)) fun item => ?_
  cases item with
  | none => exact .yield none
  | some item => exact .yield _

/-! ### Operators -/

theorem nextOperator (table : List Op) : Pairs 0 (Program.nextOperator table) :=
  .peek (fun _ _ seen => congrArg Program.yield (Op.next?_of_endSeen table seen)) fun _ => .yield _

theorem takeAll {kinds : List Kind} (others : ∀ kind ∈ kinds, kind.nesting = 0 ∧ kind ≠ .eof) :
    Pairs 0 (Program.takeAll kinds) := by
  induction kinds with
  | nil => exact .yield ()
  | cons kind more ih =>
      obtain ⟨other, notEnd⟩ := others kind List.mem_cons_self
      exact .andThen (.take other notEnd) fun _ =>
        ih fun kind member => others kind (List.mem_cons_of_mem _ member)

theorem takeOperator (op : Op) : Pairs 0 (Program.takeOperator op) := by
  have others : ∀ kind ∈ op.words, kind.nesting = 0 ∧ kind ≠ .eof := by cases op <;> decide
  exact .andThen (.extent (moves_takeAll op.words_ne_nil op.eof_not_mem_words) (takeAll others))
    fun _ => .yield _

theorem attemptRight (op : Op) {right : Program α} (part : Pairs 0 right) :
    Pairs 0 (Program.attemptRight op right) :=
  .attempt (.andThen (takeOperator op) fun _ => .andThen part fun _ => .yield _)

theorem chainStep (table : List Op) (right : ExprRule) (left : Expr) :
    Pairs 0 (Program.chainStep table right left) := by
  refine .andThen (nextOperator table) fun op => ?_
  cases op with
  | none => exact .yield none
  | some op =>
      refine .andThen (attemptRight op (expr right)) fun found => ?_
      cases found with
      | none => exact .yield none
      | some found => exact .yield _

theorem leftChain (table : List Op) (first right : ExprRule) :
    Pairs 0 (Program.leftChain table first right) :=
  .andThen (expr first) fun operand => .iterate operand (chainStep table right)

theorem unary (table : List Op) (operand : ExprRule) {plain : Program Expr}
    (without : Pairs 0 plain) : Pairs 0 (Program.unary table operand plain) := by
  refine .andThen (nextOperator table) fun op => ?_
  cases op with
  | none => exact without
  | some op =>
      exact .andThen (takeOperator op) fun _ => .andThen (expr operand) fun _ => .yield _

end Pairs

end Program

namespace Grammar

open Program

/-! ### The ladder -/

theorem logicalStep_pairs (chain : Expr × Option Op) : Pairs 0 (logicalStep chain) := by
  obtain ⟨left, previous⟩ := chain
  refine .andThen (.nextOperator Op.logical) fun op => ?_
  cases op with
  | none => exact .yield none
  | some op =>
      refine .andThen (.attemptRight op (.expr .relation)) fun found => ?_
      cases found with
      | none => exact .yield none
      | some found =>
          cases previous with
          | none => exact .yield _
          | some previous => exact .ite (.andThen (.forbid _ _) fun _ => .yield _) (.yield _)

theorem logicalChain_pairs : Pairs 0 logicalChain :=
  .andThen (.expr .relation) fun operand =>
    .andThen (.iterate (operand, none) logicalStep_pairs) fun _ => .yield _

theorem forbidChained_pairs (compared : Compared) (op : Op) (words : Extent) :
    Pairs 0 (forbidChained compared op words) :=
  .ite (.yield ()) (.forbid _ _)

theorem comparisonStep_pairs (chain : Compared × Expr) : Pairs 0 (comparisonStep chain) := by
  obtain ⟨compared, last⟩ := chain
  refine .andThen (.nextOperator Op.relational) fun op => ?_
  cases op with
  | none => exact .yield none
  | some op =>
      refine .andThen (.attemptRight op (.expr .simpleExpr)) fun found => ?_
      cases found with
      | none => exact .yield none
      | some found => exact .andThen (forbidChained_pairs compared op found.1) fun _ => .yield _

theorem membershipTest_pairs (compared : Compared) (tested : Expr) :
    Pairs 0 (membershipTest compared tested) := by
  refine .andThen (.nextOperator Op.membership) fun op => ?_
  cases op with
  | none => exact .yield tested
  | some op =>
      refine .andThen (.attemptRight op (.call .choiceList)) fun found => ?_
      cases found with
      | none => exact .yield tested
      | some found => exact .andThen (forbidChained_pairs compared op found.1) fun _ => .yield _

theorem relation_pairs : Pairs 0 relation :=
  .andThen (.expr .simpleExpr) fun operand =>
    .andThen (.iterate ([], operand) comparisonStep_pairs) fun (compared, last) =>
      .andThen (membershipTest_pairs compared last) fun _ => .yield _

theorem power_pairs : Pairs 0 power := by
  refine .andThen (.expr .primary) fun base => .andThen (.nextOperator Op.exponent) fun op => ?_
  cases op with
  | none => exact .yield base
  | some op =>
      refine .andThen (.attemptRight op (.expr .primary)) fun found => ?_
      cases found with
      | none => exact .yield base
      | some found => exact .yield _

/-! ### Names -/

theorem ident_pairs (form : IdentForm) : Pairs 0 (ident form) := by
  refine .andThen (.take ?_ ?_) fun _ => .yield _
  all_goals cases form <;> decide

theorem simpleName_pairs (form : IdentForm) : Pairs 0 (simpleName form) :=
  .andThen (ident_pairs form) fun _ => .yield _

theorem literal_pairs (form : LiteralForm) {kind : Kind} (other : kind.nesting = 0)
    (more : kind ≠ .eof) : Pairs 0 (literal form kind) :=
  .andThen (.take other more) fun _ => .yield _

theorem dereference_pairs : Pairs 0 dereference :=
  .andThen (.take (by decide) (by decide)) fun _ => .yield _

theorem keywordAttribute_pairs : Pairs 0 keywordAttribute :=
  .andThen (.takeOneOf _ (by decide)) fun _ => .yield _

theorem name_pairs : Pairs 0 name := by
  refine .andThen (.expr .directName) fun base => .iterate base fun base => ?_
  refine .andThen (.firstOf fun part member => ?_) fun step => .yield _
  obtain ⟨rule, _, rfl⟩ := List.mem_map.mp member
  exact .call (.step rule)

theorem callStep_pairs : Pairs 0 callStep :=
  .enclosed (.call .callSuffix) fun _ _ => .yield _

theorem selectionStep_pairs : Pairs 0 selectionStep :=
  .andThen (.take (by decide) (by decide)) fun _ => .andThen (.expr .directName) fun _ => .yield _

theorem attributeStep_pairs : Pairs 0 attributeStep := by
  refine .andThen (.extent (moves_take (by decide)).andThen ?_) fun _ => .yield _
  exact .andThen (.take (by decide) (by decide)) fun _ =>
    .andThen (.expr .attributeDesignator) fun _ =>
      .andThen (.attempt (.parenthesized (.call .callSuffix))) fun _ => .yield _

theorem qualificationStep_pairs : Pairs 0 qualificationStep := by
  refine .andThen (.extent (moves_take (by decide)).andThen ?_) fun _ => .yield _
  exact .andThen (.take (by decide) (by decide)) fun _ =>
    .orElse (.parenthesized (.expr .expression)) (.expr .aggregate)

theorem staticPart_pairs : Pairs 0 staticPart :=
  .nextKind rfl fun _ => ident_pairs _

theorem staticName_pairs : Pairs 0 staticName := by
  refine .andThen staticPart_pairs fun first => .andThen (.iterate _ fun base => ?_) fun _ => .yield _
  refine .ifNext (by decide) (by decide) ?_ (.yield none)
  refine .andThen (.attempt (.andThen (.take (by decide) (by decide)) fun _ => staticPart_pairs))
    fun found => ?_
  cases found with
  | none => exact .yield none
  | some selector => exact .yield _

/-! ### Choices, associations and aggregates -/

theorem discreteRange_pairs : Pairs 0 discreteRange :=
  .andThen (.expr .simpleExpr) fun _ => .andThen (.take (by decide) (by decide)) fun _ =>
    .andThen (.expr .simpleExpr) fun _ => .yield _

theorem choice_pairs : Pairs 0 choice := by
  have parts : ∀ part ∈ [Program.expr .discreteRange, Program.expr .expression],
      Pairs 0 part := by
    intro part member
    simp only [List.mem_cons, List.not_mem_nil, or_false] at member
    rcases member with rfl | rfl
    · exact .expr .discreteRange
    · exact .expr .expression
  refine .andThen (.firstOf parts) fun inner => ?_
  cases inner with
  | none =>
      exact .ifNext (by decide) (by decide)
        (.andThen (.take (by decide) (by decide)) fun _ => .yield _) (.fail _)
  | some inner => exact .yield _

theorem choiceList_pairs : Pairs 0 choiceList :=
  .separated (by decide) (by decide) (.call .choice)

theorem box_pairs : Pairs 0 box :=
  .andThen (.take (by decide) (by decide)) fun _ => .yield _

theorem parameterDesignator_pairs : Pairs 0 parameterDesignator :=
  .ifNext (by decide) (by decide) (.andThen (.take (by decide) (by decide)) fun _ => .yield _)
    (.andThen staticPart_pairs fun _ => .yield _)

theorem parameterAssociation_pairs : Pairs 0 parameterAssociation := by
  refine .andThen (.attempt ?_) fun _ => .andThen (.orElse (.expr .expression) box_pairs) fun _ =>
    .yield _
  exact .andThen parameterDesignator_pairs fun _ =>
    .andThen (.take (by decide) (by decide)) fun _ => .yield _

theorem callSuffix_pairs : Pairs 0 callSuffix := by
  refine .andThen (.attempt (.expr .discreteRange)) fun bounds => ?_
  cases bounds with
  | none =>
      exact .andThen (.separated (by decide) (by decide) (.call .parameterAssociation)) fun _ =>
        .yield _
  | some bounds => exact .yield _

theorem aggregateDesignator_pairs : Pairs 0 aggregateDesignator :=
  .andThen (.extent (moves_call .choiceList) (.call .choiceList)) fun _ =>
    .andThen (.take (by decide) (by decide)) fun _ => .yield _

theorem aggregateAssociation_pairs : Pairs 0 aggregateAssociation :=
  .andThen (.attempt aggregateDesignator_pairs) fun _ =>
    .ifNext (by decide) (by decide) (.andThen box_pairs fun _ => .yield _)
      (.andThen (.expr .expression) fun _ => .yield _)

theorem aggregateContent_pairs : Pairs 0 aggregateContent := by
  refine .peek (fun ended closed seen => ?_) fun kinds => .ite ?_ ?_
  · -- Both words of `null record` stand in front of the end.
    have same : ended = (.kwNull, .kwRecord) ↔ closed = (.kwNull, .kwRecord) := by
      cases seen <;> simp
    simp only [same]
  · exact .andThen (.take (by decide) (by decide)) fun _ =>
      .andThen (.take (by decide) (by decide)) fun _ => .yield _
  · exact .andThen (.separated (by decide) (by decide) (.call .aggregateAssociation)) fun _ =>
      .yield _

theorem aggregate_pairs : Pairs 0 aggregate := by
  refine .andThen (.extent (moves_take (by decide)).andThen (.parenthesized ?_)) fun _ => .yield _
  refine .andThen (.attempt ?_) fun _ => .andThen aggregateContent_pairs fun _ => .yield _
  exact .andThen (.expr .expression) fun _ => .andThen (.take (by decide) (by decide)) fun _ =>
    .yield _

/-! ### Conditional expressions -/

theorem parenthesizedExpr_pairs : Pairs 0 parenthesizedExpr :=
  .parenthesized (.orElse (.expr .conditional) (.expr .expression))

theorem consequence_pairs : Pairs 0 consequence :=
  .andThen (.expr .expression) fun _ => .andThen (.take (by decide) (by decide)) fun _ =>
    .andThen (.expr .expression) fun _ => .yield _

theorem elsifParts_pairs : Pairs 0 elsifParts := by
  refine .andThen (.iterate [] fun parts => ?_) fun _ => .yield _
  exact .ifNext (by decide) (by decide) (.andThen (.take (by decide) (by decide)) fun _ =>
    .andThen consequence_pairs fun _ => .yield _) (.yield none)

theorem elsePart_pairs : Pairs 0 elsePart :=
  .ifNext (by decide) (by decide) (.andThen (.take (by decide) (by decide)) fun _ =>
    .andThen (.expr .expression) fun _ => .yield _) (.yield none)

theorem ifExpr_pairs : Pairs 0 ifExpr := by
  refine .andThen (.extent (moves_take (by decide)).andThen ?_) fun _ => .yield _
  exact .andThen (.take (by decide) (by decide)) fun _ => .andThen consequence_pairs fun _ =>
    .andThen elsifParts_pairs fun _ => .andThen elsePart_pairs fun _ => .yield _

theorem caseAlternative_pairs : Pairs 0 caseAlternative :=
  .andThen (.take (by decide) (by decide)) fun _ => .andThen (.call .choiceList) fun _ =>
    .andThen (.take (by decide) (by decide)) fun _ => .andThen (.expr .expression) fun _ => .yield _

theorem caseExpr_pairs : Pairs 0 caseExpr := by
  refine .andThen (.extent (moves_take (by decide)).andThen ?_) fun _ => .yield _
  exact .andThen (.take (by decide) (by decide)) fun _ => .andThen (.expr .expression) fun _ =>
    .andThen (.take (by decide) (by decide)) fun _ =>
      .andThen (.separated (by decide) (by decide) caseAlternative_pairs) fun _ => .yield _

theorem iterationSource_pairs : Pairs 0 iterationSource := by
  refine .orElse ?_ (.andThen (.orElse (.expr .discreteRange) (.expr .expression)) fun _ => .yield _)
  exact .andThen (.expr .name) fun _ => .andThen (.take (by decide) (by decide)) fun _ =>
    .andThen (.expr .discreteRange) fun _ => .yield _

theorem reversed_pairs : Pairs 0 reversed :=
  .ifNext (by decide) (by decide) (.andThen (.take (by decide) (by decide)) fun _ => .yield _)
    (.yield false)

theorem loopSpec_pairs : Pairs 0 loopSpec :=
  .andThen (.take (by decide) (by decide)) fun _ => .andThen (.takeOneOf _ (by decide)) fun _ =>
    .andThen reversed_pairs fun _ => .andThen iterationSource_pairs fun _ => .yield _

theorem quantified_pairs : Pairs 0 quantified :=
  .andThen (.take (by decide) (by decide)) fun _ => .andThen (.takeOneOf _ (by decide)) fun _ =>
    .andThen (.call .loopSpec) fun _ => .andThen (.take (by decide) (by decide)) fun _ =>
      .andThen (.orElse (.expr .discreteRange) (.expr .expression)) fun _ => .yield _

/-! ### Allocators and raise expressions -/

theorem allocator_pairs : Pairs 0 allocator :=
  .andThen (.take (by decide) (by decide)) fun _ =>
    .andThen (.attempt (.parenthesized (.expr .name))) fun _ =>
      .andThen (.expr .name) fun _ => .yield _

theorem raiseExpr_pairs : Pairs 0 raiseExpr := by
  refine .andThen (.extent (moves_take (by decide)).andThen ?_) fun _ => .yield _
  refine .andThen (.take (by decide) (by decide)) fun _ =>
    .andThen (.attempt (.expr .name)) fun exception => ?_
  cases exception with
  | none => exact .yield _
  | some exception =>
      refine .andThen (.attempt ?_) fun _ => .yield _
      exact .andThen (.take (by decide) (by decide)) fun _ => .expr .expression

end Grammar

/-! ### Every rule -/

open Program Grammar

theorem ChoiceTable.program_pairs (table : ChoiceTable) (label : String) :
    Pairs 0 (table.program label) := by
  refine .andThen (.firstOf fun part member => ?_) fun value => ?_
  · obtain ⟨alternative, _, rfl⟩ := List.mem_map.mp member
    exact .expr alternative.2
  · cases value with
    | none => exact .fail _
    | some value => exact .yield value

theorem ExprRule.body_pairs (rule : ExprRule) : Pairs 0 rule.body := by
  cases rule with
  | expression => exact .remember _ _
  | logicalChain => exact logicalChain_pairs
  | relation => exact relation_pairs
  | simpleExpr => exact .remember _ _
  | addingChain => exact .leftChain _ _ _
  | unopTerm => exact .unary _ _ (.expr .term)
  | term => exact .leftChain _ _ _
  | factor => exact .unary _ _ power_pairs
  | primary => exact .remember _ _
  | oneOf table label => exact table.program_pairs label
  | parenthesized => exact parenthesizedExpr_pairs
  | numberLiteral => exact literal_pairs _ (by decide) (by decide)
  | nullLiteral => exact literal_pairs _ (by decide) (by decide)
  | characterLiteral => exact literal_pairs _ (by decide) (by decide)
  | stringLiteral => exact simpleName_pairs _
  | identifier => exact simpleName_pairs _
  | enumerationLiteral => exact simpleName_pairs _
  | name => exact name_pairs
  | directName => exact .expr _
  | dereference => exact dereference_pairs
  | keywordAttribute => exact keywordAttribute_pairs
  | attributeDesignator => exact .orElse (.expr _) (.expr _)
  | staticName => exact staticName_pairs
  | aggregate => exact aggregate_pairs
  | discreteRange => exact discreteRange_pairs
  | conditional => exact .expr _
  | ifExpr => exact ifExpr_pairs
  | caseExpr => exact caseExpr_pairs
  | quantified => exact quantified_pairs
  | allocator => exact allocator_pairs
  | raiseExpr => exact raiseExpr_pairs

theorem StepRule.body_pairs (rule : StepRule) : Pairs 0 rule.body := by
  cases rule with
  | call => exact callStep_pairs
  | selection => exact selectionStep_pairs
  | attributeRef => exact attributeStep_pairs
  | qualification => exact qualificationStep_pairs

theorem Rule.body_pairs (rule : Rule) : Pairs 0 rule.body := by
  cases rule with
  | expr rule => exact rule.body_pairs
  | step rule => exact rule.body_pairs
  | choice => exact choice_pairs
  | choiceList => exact choiceList_pairs
  | aggregateAssociation => exact aggregateAssociation_pairs
  | parameterAssociation => exact parameterAssociation_pairs
  | callSuffix => exact callSuffix_pairs
  | loopSpec => exact loopSpec_pairs

/-! ### What is read -/

/-- One step into the definition of `Pairs`, for programs that do not start with another one. -/
def Program.PairsBy (pending : Nat) : {α : Type} → Program α → Prop
  | _, .yield _ => pending = 0
  | _, .andThen _ _ => True
  | _, .fail _ => True
  | _, .take kind => pending = 0 ∧ kind.nesting = 0 ∧ kind ≠ .eof
  | _, .peek => False
  | _, .forbid _ _ => pending = 0
  | _, .attempt part => pending = 0 ∧ part.Pairs 0
  | _, .extent part => pending = 0 ∧ part.Moves ∧ part.Pairs 0
  | _, .iterate _ step => pending = 0 ∧ ∀ value, (step value).Pairs 0
  | _, .remember _ _ => pending = 0
  | _, .call _ => pending = 0

theorem Program.Pairs.pairsBy {pending : Nat} {α : Type} {program : Program α}
    (pairs : program.Pairs pending) : program.PairsBy pending := by
  cases pairs with
  | yield => rfl
  | take other more => exact ⟨rfl, other, more⟩
  | attempt part => exact ⟨rfl, part⟩
  | extent moves part => exact ⟨rfl, moves, part⟩
  | iterate value step => exact ⟨rfl, step⟩
  | forbid => rfl
  | remember => rfl
  | call => rfl
  | _ => trivial

/-- What a program takes leaves `pending` parentheses less open. -/
theorem Reads.depth_eq {setting : Setting} {α : Type} {program : Program α} {index stop : Nat}
    {value : α} {pending : Nat} (reads : Reads setting program index (.done value stop))
    (pairs : program.Pairs pending) :
    setting.buffer.depth stop + pending = setting.buffer.depth index := by
  generalize result : Reading.done value stop = reading at reads
  induction reads generalizing stop pending with
  | yield =>
      cases result
      obtain rfl := pairs.pairsBy
      exact Int.add_zero _
  | andThen first next ihFirst ihNext =>
      cases pairs with
      | andThen pairsFirst pairsNext =>
          have leads := ihFirst pairsFirst rfl
          have ends := ihNext (pairsNext _) result
          omega
      | taking more level rest =>
          rcases first.readsBy with ⟨found, same⟩ | ⟨_, same⟩
          · cases same
            have leads := Buffer.depth_next found more
            have ends := ihNext (rest _) result
            omega
          · cases same
      | peek same rest =>
          cases first.readsBy
          exact ihNext (rest _) result
      | nextKind same rest =>
          cases first.unique reads_nextKind
          exact ihNext (rest _) result
  | take found =>
      cases result
      obtain ⟨rfl, other, more⟩ := pairs.pairsBy
      have leads := Buffer.depth_next found more
      omega
  | peek => exact pairs.pairsBy.elim
  | forbid _ =>
      cases result
      obtain rfl := pairs.pairsBy
      exact Int.add_zero _
  | attempt part ih =>
      cases result
      obtain ⟨rfl, pairsPart⟩ := pairs.pairsBy
      exact ih pairsPart rfl
  | attemptNone part _ =>
      cases result
      obtain ⟨rfl, _⟩ := pairs.pairsBy
      exact Int.add_zero _
  | extent part ih =>
      cases result
      obtain ⟨rfl, _, pairsPart⟩ := pairs.pairsBy
      exact ih pairsPart rfl
  | iterateStop step ih =>
      cases result
      obtain ⟨rfl, pairsStep⟩ := pairs.pairsBy
      exact ih (pairsStep _) rfl
  | iterateNext step rest ihStep ihRest =>
      obtain ⟨rfl, pairsStep⟩ := pairs.pairsBy
      have leads := ihStep (pairsStep _) rfl
      have ends := ihRest (.iterate _ pairsStep) result
      omega
  | remember call ih =>
      obtain rfl := pairs.pairsBy
      exact ih (.call _) result
  | @call rule _ _ _ ih =>
      obtain rfl := pairs.pairsBy
      exact ih rule.body_pairs result
  | _ => cases result

end AdaExpressions
