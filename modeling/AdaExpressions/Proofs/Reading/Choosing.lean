import AdaExpressions.Proofs.Reading.Progress

/-!
# Which alternative is read

An alternative is passed over when it fails recoverably. Most do so at their first token: `starters`
lists the kinds a rule can start with, and at any other token the rule fails without having read
anything. The other half of this module tells what is read where a part does not fail, instruction by
instruction.

Results: `ExprRule.failsAt_of_start`, `Program.reads_choice`.
-/

namespace AdaExpressions

namespace Op

/-- The kinds an operator of the table can start with. -/
def starters (table : List Op) : List Kind :=
  table.filterMap fun op => op.words.head?

theorem next?_eq_none {table : List Op} {first : Kind} (second : Kind)
    (other : first ∉ starters table) : next? table first second = none := by
  refine List.find?_eq_none.mpr fun op member => ?_
  have some_ := op.words_ne_nil
  cases words : op.words with
  | nil => exact absurd words some_
  | cons word more =>
      have differs : word ≠ first := fun same =>
        other (List.mem_filterMap.mpr ⟨op, member, by rw [words, same]; rfl⟩)
      simp [differs]

end Op

namespace Program

variable {setting : Setting} {α β : Type} {index : Nat}

/-! ### Parts that fail -/

namespace FailsAt

theorem bind {first : Program α} {next : α → Program β} (fails : first.FailsAt setting index) :
    (first >>= next).FailsAt setting index :=
  let ⟨failure, reads, recoverable⟩ := fails
  ⟨failure, .andThenFailed reads, recoverable⟩

theorem behind {first : Program α} {next : α → Program β} {value : α} {middle : Nat}
    (reads : Reads setting first index (.done value middle))
    (fails : (next value).FailsAt setting middle) : (first >>= next).FailsAt setting index :=
  let ⟨failure, readsNext, recoverable⟩ := fails
  ⟨failure, .andThen reads readsNext, recoverable⟩

theorem extent {part : Program α} (fails : part.FailsAt setting index) :
    (Program.extent part).FailsAt setting index :=
  let ⟨failure, reads, recoverable⟩ := fails
  ⟨failure, .extentFailed reads, recoverable⟩

theorem remember {key : MemoKey} {rule : ExprRule} (fails : (expr rule).FailsAt setting index) :
    (Program.remember key rule).FailsAt setting index :=
  let ⟨failure, reads, recoverable⟩ := fails
  ⟨failure, .remember reads, recoverable⟩

theorem call {rule : Rule} (fails : rule.body.FailsAt setting index) :
    (Program.call rule).FailsAt setting index :=
  let ⟨failure, reads, recoverable⟩ := fails
  ⟨failure, .call reads, recoverable⟩

theorem take {kind : Kind} (missing : setting.buffer.kind index ≠ kind) :
    (Program.take kind).FailsAt setting index :=
  ⟨_, .takeFailed missing, rfl⟩

theorem fail {objection : Objection} (recoverable : objection.isFatal = false) :
    (Program.fail objection : Program α).FailsAt setting index :=
  ⟨_, .fail, recoverable⟩

end FailsAt

theorem reads_nextKind :
    Reads setting nextKind index (.done (setting.buffer.kind index) index) :=
  .andThen .peek .yield

theorem FailsAt.takeOneOf {label : String} {kinds : List Kind}
    (missing : setting.buffer.kind index ∉ kinds) :
    (Program.takeOneOf label kinds).FailsAt setting index := by
  refine .behind reads_nextKind ?_
  rw [if_neg (by simpa using missing)]
  exact .fail rfl

theorem reads_attempt_none {part : Program α} (fails : part.FailsAt setting index) :
    Reads setting (attempt part) index (.done none index) :=
  let ⟨_, reads, recoverable⟩ := fails
  .attemptNone reads recoverable

theorem reads_orElse {first second : Program α} {reading : Reading α}
    (fails : first.FailsAt setting index) (reads : Reads setting second index reading) :
    Reads setting (orElse first second) index reading :=
  .andThen (reads_attempt_none fails) reads

theorem FailsAt.orElse {first second : Program α} (fails : first.FailsAt setting index)
    (again : second.FailsAt setting index) : (Program.orElse first second).FailsAt setting index :=
  .behind (reads_attempt_none fails) again

/-- What follows the second part fails, and the first is passed over. -/
theorem FailsAt.orElse_bind {first second : Program α} {next : α → Program β}
    (fails : first.FailsAt setting index) (again : (second >>= next).FailsAt setting index) :
    (Program.orElse first second >>= next).FailsAt setting index := by
  obtain ⟨failure, reads, recoverable⟩ := again
  refine ⟨failure, ?_, recoverable⟩
  rcases reads_bind.mp reads with ⟨value, middle, reads, failed⟩ | ⟨_, failed, same⟩
  · exact .andThen (reads_orElse fails reads) failed
  · cases same
    exact .andThenFailed (reads_orElse fails failed)

theorem reads_firstOf_none {parts : List (Program α)}
    (fail : ∀ part ∈ parts, part.FailsAt setting index) :
    Reads setting (firstOf parts) index (.done none index) := by
  induction parts with
  | nil => exact .yield
  | cons part more ih =>
      refine .andThen (reads_attempt_none (fail part List.mem_cons_self)) (ih ?_)
      exact fun other member => fail other (List.mem_cons_of_mem _ member)

/-! ### Parts that do not fail -/

theorem reads_take {kind : Kind} (found : setting.buffer.kind index = kind) (more : kind ≠ .eof) :
    Reads setting (take kind) index (.done (setting.buffer.token index) (index + 1)) := by
  have here : setting.buffer.kind index ≠ .eof := by rwa [found]
  rw [← Buffer.next_of_ne_eof here]
  exact .take found

theorem reads_takeOneOf {label : String} {kinds : List Kind}
    (found : setting.buffer.kind index ∈ kinds) (more : .eof ∉ kinds) :
    Reads setting (takeOneOf label kinds) index
      (.done (setting.buffer.token index) (index + 1)) := by
  refine .andThen reads_nextKind ?_
  rw [if_pos (by simpa using found)]
  exact reads_take rfl fun closed => more (closed ▸ found)

theorem reads_orElse_first {first second : Program α} {value : α} {stop : Nat}
    (reads : Reads setting first index (.done value stop)) :
    Reads setting (orElse first second) index (.done value stop) :=
  .andThen (.attempt reads) .yield

theorem reads_enclosed {inner : Program α} {value : α} {stop : Nat}
    (opened : setting.buffer.kind index = .openParen)
    (reads : Reads setting inner (index + 1) (.done value stop))
    (closed : setting.buffer.kind stop = .closeParen) :
    Reads setting (parenthesized inner) index (.done value (stop + 1)) :=
  .andThen (reads_take opened (by decide))
    (.andThen reads (.andThen (reads_take closed (by decide)) .yield))

/-- The parts before the one that is read fail. -/
theorem reads_firstOf {before after : List (Program α)} {part : Program α} {value : α} {stop : Nat}
    (fail : ∀ other ∈ before, other.FailsAt setting index)
    (reads : Reads setting part index (.done value stop)) :
    Reads setting (firstOf (before ++ part :: after)) index (.done (some value) stop) := by
  induction before with
  | nil => exact .andThen (.attempt reads) .yield
  | cons other more ih =>
      refine .andThen (reads_attempt_none (fail other List.mem_cons_self)) (ih ?_)
      exact fun part member => fail part (List.mem_cons_of_mem _ member)

theorem reads_choice {table : ChoiceTable} {label : String} {rule : ExprRule} {expr_ : Expr}
    {stop : Nat} (before : List ExprRule) {after : List ExprRule}
    (alternatives : table.alternatives.map Prod.snd = before ++ rule :: after)
    (fail : ∀ other ∈ before, (expr other).FailsAt setting index)
    (reads : Reads setting (expr rule) index (.done expr_ stop)) :
    Reads setting (expr (.oneOf table label)) index (.done expr_ stop) := by
  have parts : (table.alternatives.map fun alternative => expr alternative.2) =
      before.map expr ++ expr rule :: after.map expr := by
    rw [show (fun alternative : String × ExprRule => expr alternative.2) = expr ∘ Prod.snd from rfl,
      ← List.map_map, alternatives, List.map_append, List.map_cons]
  have found : Reads setting
      (firstOf (table.alternatives.map fun alternative => expr alternative.2)) index
      (.done (some expr_) stop) := by
    rw [parts]
    refine reads_firstOf (fun other member => ?_) reads
    obtain ⟨rule, known, rfl⟩ := List.mem_map.mp member
    exact fail rule known
  have chosen : Reads setting (table.program label) index (.done expr_ stop) :=
    .andThen found .yield
  exact .call chosen

/-- What a choice gives is what one of its alternatives gives. -/
theorem exists_of_choice {table : ChoiceTable} {label : String} {tree : Expr} {stop : Nat}
    (reads : Reads setting (expr (.oneOf table label)) index (.done tree stop)) :
    ∃ rule ∈ table.alternatives.map Prod.snd,
      Reads setting (expr rule) index (.done tree stop) := by
  have part {parts : List (Program Expr)}
      (reads : Reads setting (firstOf parts) index (.done (some tree) stop)) :
      ∃ part ∈ parts, Reads setting part index (.done tree stop) := by
    induction parts with
    | nil => cases reads.readsBy
    | cons part more ih =>
        obtain ⟨_, middle, attempted, rest⟩ := reads_bind_done.mp reads
        rcases attempted.readsBy with ⟨value, _, found, same⟩ | ⟨_, _, ⟨_, same⟩ | ⟨_, same⟩⟩
        · cases same
          cases rest.readsBy
          exact ⟨part, List.mem_cons_self, found⟩
        · cases same
          obtain ⟨part, member, found⟩ := ih rest
          exact ⟨part, List.mem_cons_of_mem _ member, found⟩
        · cases same
  have table_ : Reads setting (table.program label) index (.done tree stop) := reads.readsBy
  obtain ⟨found, middle, first, rest⟩ := reads_bind_done.mp table_
  cases found with
  | none => cases rest.readsBy
  | some value =>
      cases rest.readsBy
      obtain ⟨_, member, reads⟩ := part first
      obtain ⟨alternative, known, rfl⟩ := List.mem_map.mp member
      exact ⟨alternative.2, List.mem_map_of_mem known, reads⟩

theorem FailsAt.choice {table : ChoiceTable} {label : String}
    (fail : ∀ rule ∈ table.alternatives.map Prod.snd, (expr rule).FailsAt setting index) :
    (table.program label).FailsAt setting index := by
  have none_ : Reads setting
      (firstOf (table.alternatives.map fun alternative => expr alternative.2)) index
      (.done none index) := by
    refine reads_firstOf_none fun part member => ?_
    obtain ⟨alternative, known, rfl⟩ := List.mem_map.mp member
    exact fail alternative.2 (List.mem_map_of_mem known)
  exact .behind none_ (.fail rfl)

/-! ### Operators -/

theorem reads_nextOperator {table : List Op} :
    Reads setting (nextOperator table) index
      (.done (Op.next? table (setting.kindsAt index).1 (setting.kindsAt index).2) index) :=
  .andThen .peek .yield

/-- No operator of the table comes next. -/
theorem next?_eq_none {table : List Op}
    (other : setting.buffer.kind index ∉ Op.starters table) :
    Op.next? table (setting.kindsAt index).1 (setting.kindsAt index).2 = none :=
  Op.next?_eq_none _ other

theorem reads_takeAll {kinds : List Kind} (more : .eof ∉ kinds)
    (words : setting.WordsAt kinds index) :
    Reads setting (takeAll kinds) index (.done () (index + kinds.length)) := by
  induction kinds generalizing index with
  | nil => exact .yield
  | cons kind rest ih =>
      simp only [List.mem_cons, not_or] at more
      rw [List.length_cons, show index + (rest.length + 1) = index + 1 + rest.length by omega]
      exact .andThen (reads_take words.1 (Ne.symm more.1)) (ih more.2 words.2)

theorem reads_takeOperator {op : Op} (words : setting.WordsAt op.words index) :
    Reads setting (takeOperator op) index
      (.done (setting.extent index (index + op.words.length)) (index + op.words.length)) :=
  .andThen (.extent (reads_takeAll op.eof_not_mem_words words)) .yield

theorem reads_attemptRight {op : Op} {right : Program α} {value : α} {stop : Nat}
    (words : setting.WordsAt op.words index)
    (reads : Reads setting right (index + op.words.length) (.done value stop)) :
    Reads setting (attemptRight op right) index
      (.done (some (setting.extent index (index + op.words.length), value)) stop) :=
  .attempt (.andThen (reads_takeOperator words) (.andThen reads .yield))

theorem reads_chainStep_none {table : List Op} {right : ExprRule} {left : Expr}
    (other : setting.buffer.kind index ∉ Op.starters table) :
    Reads setting (chainStep table right left) index (.done none index) := by
  refine .andThen reads_nextOperator ?_
  rw [next?_eq_none other]
  exact .yield

theorem reads_chainStep {table : List Op} {right : ExprRule} {left operand : Expr} {op : Op}
    {stop : Nat}
    (next : Op.next? table (setting.kindsAt index).1 (setting.kindsAt index).2 = some op)
    (words : setting.WordsAt op.words index)
    (reads : Reads setting (expr right) (index + op.words.length) (.done operand stop)) :
    Reads setting (chainStep table right left) index
      (.done (some (.ofBinary left op operand)) stop) := by
  refine .andThen reads_nextOperator ?_
  rw [next]
  exact .andThen (reads_attemptRight words reads) .yield

theorem reads_unary {table : List Op} {operand : ExprRule} {plain : Program Expr} {op : Op}
    {expr_ : Expr} {stop : Nat}
    (next : Op.next? table (setting.kindsAt index).1 (setting.kindsAt index).2 = some op)
    (words : setting.WordsAt op.words index)
    (reads : Reads setting (expr operand) (index + op.words.length) (.done expr_ stop)) :
    Reads setting (unary table operand plain) index
      (.done (.ofUnary op (setting.extent index (index + op.words.length)).span expr_) stop) := by
  refine .andThen reads_nextOperator ?_
  rw [next]
  exact .andThen (reads_takeOperator words) (.andThen reads .yield)

/-- An operand with no operator of the table before it. -/
theorem reads_unary_plain {table : List Op} {operand : ExprRule} {plain : Program Expr}
    {reading : Reading Expr} (other : setting.buffer.kind index ∉ Op.starters table)
    (reads : Reads setting plain index reading) :
    Reads setting (unary table operand plain) index reading := by
  refine .andThen reads_nextOperator ?_
  rw [next?_eq_none other]
  exact reads

theorem FailsAt.unary {table : List Op} {operand : ExprRule} {plain : Program Expr}
    (none_ : setting.buffer.kind index ∉ Op.starters table)
    (fails : plain.FailsAt setting index) :
    (Program.unary table operand plain).FailsAt setting index := by
  refine .behind reads_nextOperator ?_
  rw [next?_eq_none none_]
  exact fails

end Program

/-! ### Where rules start -/

/-- The kinds a direct name can start with. -/
def nameStarters : List Kind :=
  [.identifier, .string, .char, .kwAll, .kwAccess, .kwDelta, .kwDigits, .kwMod, .kwRange]

def primaryStarters : List Kind :=
  [.number, .kwNull, .kwNew, .kwIf, .kwCase, .kwFor, .kwRaise, .openParen] ++ nameStarters

def termStarters : List Kind :=
  [.kwAbs, .kwNot] ++ primaryStarters

def exprStarters : List Kind :=
  [.plus, .dash] ++ termStarters

def ChoiceTable.starters : ChoiceTable → List Kind
  | .primary => primaryStarters
  | .conditional => [.kwIf, .kwCase, .kwFor]
  | .directName => nameStarters

/-- The kinds a rule can start with. -/
def ExprRule.starters : ExprRule → List Kind
  | .expression | .logicalChain | .relation | .simpleExpr | .addingChain | .unopTerm
  | .discreteRange => exprStarters
  | .term | .factor => termStarters
  | .primary => primaryStarters
  | .oneOf table _ => table.starters
  | .parenthesized | .aggregate => [.openParen]
  | .numberLiteral => [.number]
  | .nullLiteral => [.kwNull]
  | .characterLiteral => [.char]
  | .stringLiteral => [.string]
  | .identifier | .enumerationLiteral => [.identifier]
  | .name | .directName => nameStarters
  | .dereference => [.kwAll]
  | .keywordAttribute => [.kwAccess, .kwDelta, .kwDigits, .kwMod, .kwRange]
  | .attributeDesignator => [.kwAccess, .kwDelta, .kwDigits, .kwMod, .kwRange, .identifier]
  | .staticName => [.string, .identifier]
  | .conditional => [.kwIf, .kwCase, .kwFor]
  | .ifExpr => [.kwIf]
  | .caseExpr => [.kwCase]
  | .quantified => [.kwFor]
  | .allocator => [.kwNew]
  | .raiseExpr => [.kwRaise]

open Program Grammar in
/-- The induction is on the rank: at its first token a rule calls rules of lower rank only. -/
theorem ExprRule.failsAt_of_start {setting : Setting} {index : Nat} (rule : ExprRule)
    (other : setting.buffer.kind index ∉ rule.starters) :
    (expr rule).FailsAt setting index := by
  have lower (called : ExprRule) (_ : called.rank < rule.rank)
      (starters : called.starters ⊆ rule.starters) : (expr called).FailsAt setting index :=
    called.failsAt_of_start fun member => other (starters member)
  have missing {kinds : List Kind} (starts : kinds ⊆ rule.starters) :
      setting.buffer.kind index ∉ kinds := fun member => other (starts member)
  have take {kind : Kind} (starts : kind ∈ rule.starters) : (take kind).FailsAt setting index :=
    .take fun found => other (found ▸ starts)
  refine FailsAt.call ?_
  cases rule with
  | expression => exact (lower .logicalChain (by decide) (List.Subset.refl _)).remember
  | logicalChain => exact (lower .relation (by decide) (List.Subset.refl _)).bind
  | relation => exact (lower .simpleExpr (by decide) (List.Subset.refl _)).bind
  | simpleExpr => exact (lower .addingChain (by decide) (List.Subset.refl _)).remember
  | addingChain => exact (lower .unopTerm (by decide) (List.Subset.refl _)).bind
  | unopTerm => exact .unary (missing (by decide)) (lower .term (by decide) (by decide))
  | term => exact (lower .factor (by decide) (List.Subset.refl _)).bind
  | factor => exact .unary (missing (by decide)) (lower .primary (by decide) (by decide)).bind
  | primary =>
      exact (lower (.oneOf .primary "primary") (by simp [rank]) (List.Subset.refl _)).remember
  | oneOf table label =>
      have ranks : ∀ rule ∈ table.alternatives.map Prod.snd, rule.rank < (oneOf table label).rank := by
        cases table <;> simp [ChoiceTable.alternatives, rank]
      have starts : ∀ rule ∈ table.alternatives.map Prod.snd, rule.starters ⊆ table.starters := by
        cases table <;> decide
      exact .choice fun rule known => lower rule (ranks rule known) (starts rule known)
  | parenthesized => exact (take List.mem_cons_self).bind
  | numberLiteral => exact (take List.mem_cons_self).bind
  | nullLiteral => exact (take List.mem_cons_self).bind
  | characterLiteral => exact (take List.mem_cons_self).bind
  | stringLiteral => exact (take List.mem_cons_self).bind.bind
  | identifier => exact (take List.mem_cons_self).bind.bind
  | enumerationLiteral => exact (take List.mem_cons_self).bind.bind
  | name => exact (lower .directName (by decide) (List.Subset.refl _)).bind
  | directName => exact lower (.oneOf .directName "direct_name") (by simp [rank]) (List.Subset.refl _)
  | dereference => exact (take List.mem_cons_self).bind
  | keywordAttribute => exact (FailsAt.takeOneOf other).bind
  | attributeDesignator =>
      exact .orElse (lower .keywordAttribute (by decide) (by decide))
        (lower .identifier (by decide) (by decide))
  | staticName =>
      refine FailsAt.bind (.behind reads_nextKind ?_)
      split
      · exact (take (by decide)).bind
      · exact (take (by decide)).bind
  | aggregate => exact (take List.mem_cons_self).bind.extent.bind
  | discreteRange => exact (lower .simpleExpr (by decide) (List.Subset.refl _)).bind
  | conditional =>
      exact lower (.oneOf .conditional "conditional_expression") (by simp [rank]) (List.Subset.refl _)
  | ifExpr => exact (take List.mem_cons_self).bind.extent.bind
  | caseExpr => exact (take List.mem_cons_self).bind.extent.bind
  | quantified => exact (take List.mem_cons_self).bind
  | allocator => exact (take List.mem_cons_self).bind
  | raiseExpr => exact (take List.mem_cons_self).bind.extent.bind
termination_by rule.rank

open Program in
theorem ExprRule.start_of_reads {setting : Setting} {start stop : Nat} {rule : ExprRule} {tree : Expr}
    (reads : Reads setting (expr rule) start (.done tree stop)) :
    setting.buffer.kind start ∈ rule.starters := by
  refine Decidable.byContradiction fun other => ?_
  obtain ⟨failure, fails, _⟩ := rule.failsAt_of_start other
  cases reads.unique fails

/-! ### Which operator comes next -/

/-- The kinds that what stands behind an operator can start with. -/
def operandStarters : List Kind :=
  .kwOthers :: exprStarters

/-- An operator of the table is told from the others by its words and what stands behind them. -/
def Op.Distinct (table : List Op) : Prop :=
  ∀ op ∈ table, ∀ behind ∈ operandStarters,
    next? table ((op.words ++ [behind]).getD 0 .eof) ((op.words ++ [behind]).getD 1 .eof) = some op

instance (table : List Op) : Decidable (Op.Distinct table) :=
  inferInstanceAs (Decidable (∀ op ∈ table, ∀ behind ∈ operandStarters, _ = some op))

theorem Op.words_cases (op : Op) :
    ∃ first, op.words = [first] ∨ ∃ second, op.words = [first, second] := by
  cases op <;> simp [words]

theorem Setting.WordsAt.next? {setting : Setting} {table : List Op} {op : Op} {index : Nat}
    (words : setting.WordsAt op.words index) (distinct : Op.Distinct table) (known : op ∈ table)
    (behind : setting.buffer.kind (index + op.words.length) ∈ operandStarters) :
    Op.next? table (setting.kindsAt index).1 (setting.kindsAt index).2 = some op := by
  have found := distinct op known _ behind
  have more := op.eof_not_mem_words
  obtain ⟨first, one | ⟨second, two⟩⟩ := op.words_cases
  · rw [one] at words more found behind
    have open_ : first ≠ .eof := fun closed => more (by simp [closed])
    simpa [Setting.kindsAt, open_, words.1] using found
  · rw [two] at words more found
    have open_ : first ≠ .eof := fun closed => more (by simp [closed])
    simpa [Setting.kindsAt, open_, words.1, words.2.1] using found

/-! ### Texts in the buffer -/

/-- The tokens stand in the buffer from the index on. -/
def Setting.TextAt (setting : Setting) : List Token → Nat → Prop
  | [], _ => True
  | token :: more, index => setting.buffer.token index = token ∧ setting.TextAt more (index + 1)

namespace Setting.TextAt

variable {setting : Setting} {index : Nat}

theorem append_iff {text more : List Token} :
    setting.TextAt (text ++ more) index ↔
      setting.TextAt text index ∧ setting.TextAt more (index + text.length) := by
  induction text generalizing index with
  | nil => simp [TextAt]
  | cons token rest ih =>
      simp only [List.cons_append, TextAt, ih, and_assoc, List.length_cons]
      rw [show index + 1 + rest.length = index + (rest.length + 1) by omega]

theorem wordsAt {text : List Token} (stands : setting.TextAt text index) :
    setting.WordsAt (text.map Token.kind) index := by
  induction text generalizing index with
  | nil => trivial
  | cons token more ih => exact ⟨congrArg Token.kind stands.1, ih stands.2⟩

theorem kind {token : Token} {more : List Token} (stands : setting.TextAt (token :: more) index) :
    setting.buffer.kind index = token.kind :=
  congrArg Token.kind stands.1

end Setting.TextAt

end AdaExpressions
