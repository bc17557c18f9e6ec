import AdaExpressions.Proofs.Printing.Operands

/-!
# Printed names

A name is read by its first part and then step by step, so what is read back of the pieces of a name
is a tree from which the steps go on: `NamePieces` leaves open what stands behind them. Only behind
an attribute without arguments no parenthesis may stand, which would open its arguments.

Results: `NamePieces.selection`, `NamePieces.call`, `NamePieces.attribute`, `NamePieces.qualified`,
`NamePieces.primary`.
-/

namespace AdaExpressions

open Lexeme (TokenText)
open Program Grammar

/-- The steps by which a name is extended, one after another. -/
def Grammar.nameSteps (base : Expr) : Program Expr :=
  iterate base fun base => do
    let step ← firstOf (StepRule.ordered.map fun rule => call (.step rule))
    return step.map (NameStep.extend base)

def StepRule.starters : StepRule → List Kind
  | .call => [.openParen]
  | .selection => [.dot]
  | .attributeRef | .qualification => [.tick]

/-- The kinds that printed names end with. -/
def nameLasts : List Kind :=
  .closeParen :: nameStarters

structure NamePieces (bare : Bool) (pieces : List Piece) (shape : Shape) : Prop where
  block : Block nameStarters nameLasts pieces
  reads {setting : Setting} {start middle : Nat} :
    setting.Stands pieces start middle → (bare = true → setting.buffer.kind middle ≠ .openParen) →
    ∃ base, base.shape = shape ∧ ∀ result stop,
      Reads setting (nameSteps base) middle (.done result stop) →
      Reads setting (.expr .name) start (.done result stop)

/-- The pieces of a single token that a name starts with. -/
abbrev DirectPieces : List Piece → Shape → Prop :=
  ReadBack nameStarters nameStarters Kind.every (.expr .directName) Expr.shape

abbrev AttributePieces : List Piece → Shape → Prop :=
  ReadBack nameStarters nameStarters Kind.every (.expr .attributeDesignator) Expr.shape

/-- The kinds that what stands between the parentheses behind a name starts with and ends with. -/
def suffixHeads : List Kind :=
  .kwOthers :: .diamond :: printedHeads

def suffixLasts : List Kind :=
  .diamond :: printedLasts

abbrev SuffixPieces : List Piece → Shape → Prop :=
  ReadBack suffixHeads suffixLasts [.closeParen] (.call .callSuffix) CallSuffix.shape

section

variable {setting : Setting} {start middle stop : Nat}

/-! ### Steps -/

theorem StepRule.failsAt_of_start (rule : StepRule)
    (other : setting.buffer.kind start ∉ rule.starters) :
    (Program.call (.step rule)).FailsAt setting start := by
  have missing {kind : Kind} (starts : kind ∈ rule.starters) : (take kind).FailsAt setting start :=
    .take fun found => other (found ▸ starts)
  refine .call ?_
  cases rule with
  | call => exact (missing (by decide)).bind
  | selection => exact (missing (by decide)).bind
  | attributeRef => exact (missing (by decide)).bind.extent.bind
  | qualification => exact (missing (by decide)).bind.extent.bind

theorem failsAt_attributeRef (tick : setting.buffer.kind start = .tick)
    (missing : setting.buffer.kind (start + 1) ∉ ExprRule.attributeDesignator.starters) :
    (call (.step .attributeRef)).FailsAt setting start :=
  .call (FailsAt.behind (reads_take tick (by decide))
    (ExprRule.attributeDesignator.failsAt_of_start missing).bind).extent.bind

/-- A name ends where no step goes on with it. -/
theorem reads_nameSteps_end {base : Expr} (ends : setting.buffer.kind start ∉ stepStarters) :
    Reads setting (nameSteps base) start (.done base start) := by
  refine .iterateStop (.andThen (reads_firstOf_none fun part member => ?_) .yield)
  obtain ⟨rule, known, rfl⟩ := List.mem_map.mp member
  have less : rule.starters ⊆ stepStarters := by cases rule <;> decide
  exact rule.failsAt_of_start fun starts => ends (less starts)

theorem reads_nameSteps {rule : StepRule} (before : List StepRule) {after : List StepRule}
    {step : NameStep} {base result : Expr} (ordered : StepRule.ordered = before ++ rule :: after)
    (fail : ∀ other ∈ before, (call (.step other)).FailsAt setting start)
    (reads : Reads setting (call (.step rule)) start (.done step middle))
    (further : Reads setting (nameSteps (step.extend base)) middle (.done result stop)) :
    Reads setting (nameSteps base) start (.done result stop) := by
  have found : Reads setting (firstOf (StepRule.ordered.map fun rule => call (.step rule))) start
      (.done (some step) middle) := by
    rw [ordered, List.map_append, List.map_cons]
    refine reads_firstOf (fun other member => ?_) reads
    obtain ⟨rule, known, rfl⟩ := List.mem_map.mp member
    exact fail rule known
  exact .iterateNext (.andThen found .yield) further

theorem plainAt_of_name {tree : Expr} (reads : Reads setting (expr .name) start (.done tree stop)) :
    setting.PlainAt start := by
  have plain : ∀ kind ∈ nameStarters, kind ∉ Op.starters (Op.unaryAdding ++ Op.highestUnary) := by
    decide
  exact plain _ (ExprRule.start_of_reads reads)

theorem reads_primary_of_name {tree : Expr}
    (reads : Reads setting (expr .name) start (.done tree stop)) :
    Reads setting (expr .primary) start (.done tree stop) := by
  have apart : ∀ rule ∈ [ExprRule.numberLiteral, .nullLiteral], ∀ kind ∈ nameStarters,
      kind ∉ rule.starters := by decide
  have starts : setting.buffer.kind start ∈ nameStarters := ExprRule.start_of_reads reads
  exact .call (.remember (reads_choice [.numberLiteral, .nullLiteral] rfl
    (fun rule member => rule.failsAt_of_start (apart rule member _ starts)) reads))

/-! ### First parts and designators -/

theorem reads_directName {rule : ExprRule} {tree : Expr} (before : List ExprRule)
    {after : List ExprRule}
    (ordered : ChoiceTable.directName.alternatives.map Prod.snd = before ++ rule :: after)
    (apart : ∀ other ∈ before, setting.buffer.kind start ∉ other.starters)
    (reads : Reads setting (expr rule) start (.done tree stop)) :
    Reads setting (expr .directName) start (.done tree stop) :=
  .call (reads_choice before ordered (fun other member => other.failsAt_of_start (apart other member))
    reads)

end

section

variable {bare : Bool} {pieces more : List Piece} {shape other : Shape}

/-- A single token that is read whatever stands behind it. -/
theorem ReadBack.leaf {α σ : Type} {first last : List Kind} {program : Program α} {view : α → σ}
    {kind : Kind} {text : String} {shape : σ} (proper : TokenText kind text.toList)
    (known : kind ∈ first ∧ kind ∈ last)
    (reads : ∀ (setting : Setting) (start : Nat), setting.buffer.kind start = kind →
      (setting.buffer.token start).text = text →
      ∃ value, view value = shape ∧ Reads setting program start (.done value (start + 1))) :
    ReadBack first last Kind.every program view [.token kind text] shape where
  block := (Block.token proper).mono (by simpa using known.1) (by simpa using known.2)
  reads := fun ⟨found, same, ends⟩ _ => by
    cases ends
    exact reads _ _ found same

theorem reads_directName_ident {setting : Setting} {start : Nat} {form : IdentForm}
    (plain : form ≠ .enumeration)
    (found : setting.buffer.kind start = if form = .operatorSymbol then .string else .identifier) :
    Reads setting (expr .directName) start
      (.done (.name (.simple ⟨form, setting.buffer.token start⟩)) (start + 1)) := by
  cases form with
  | identifier =>
      have reads : Reads setting (expr .identifier) start
          (.done (.name (.simple ⟨.identifier, setting.buffer.token start⟩)) (start + 1)) :=
        .call (.andThen (.andThen (reads_take found (by decide)) .yield) .yield)
      exact reads_directName [] rfl (by simp) reads
  | operatorSymbol =>
      have found : setting.buffer.kind start = .string := found
      have reads : Reads setting (expr .stringLiteral) start
          (.done (.name (.simple ⟨.operatorSymbol, setting.buffer.token start⟩)) (start + 1)) :=
        .call (.andThen (.andThen (reads_take found (by decide)) .yield) .yield)
      exact reads_directName [.identifier] rfl (by rw [found]; decide) reads
  | enumeration => exact absurd rfl plain

theorem DirectPieces.ident {ident : Ident} (plain : ident.form ≠ .enumeration)
    (proper : TokenText (if ident.form = .operatorSymbol then .string else .identifier)
      ident.token.text.toList) : DirectPieces [ident.piece] ident.shape := by
  have starts : (if ident.form = .operatorSymbol then Kind.string else .identifier) ∈ nameStarters := by
    split <;> decide
  refine ReadBack.leaf proper ⟨starts, starts⟩ fun setting start found same => ?_
  exact ⟨_, by rw [Expr.shape, Name.shape, Ident.shape, same]; rfl, reads_directName_ident plain found⟩

theorem DirectPieces.character {text : String} (proper : TokenText .char text.toList) :
    DirectPieces [.token .char text] (.node "Chr" [.text text]) := by
  refine ReadBack.leaf proper (by decide) fun setting start found same => ?_
  have reads : Reads setting (expr .characterLiteral) start
      (.done (.literal .character (setting.buffer.token start)) (start + 1)) :=
    .call (.andThen (reads_take found (by decide)) .yield)
  exact ⟨_, by rw [← same]; rfl,
    reads_directName [.identifier, .stringLiteral] rfl (by rw [found]; decide) reads⟩

theorem DirectPieces.dereference : DirectPieces [.word .kwAll] (.text "AccessDeref") := by
  refine ReadBack.leaf (Piece.proper_word (show Kind.kwAll ∈ _ by decide)) (by decide)
    fun setting start found _ => ?_
  have reads : Reads setting (expr .dereference) start
      (.done (.dereference (setting.buffer.token start).span) (start + 1)) :=
    .call (.andThen (reads_take found (by decide)) .yield)
  exact ⟨_, rfl, reads_directName [.identifier, .stringLiteral, .characterLiteral] rfl
    (by rw [found]; decide) reads⟩

/-- The reserved words that are attribute designators. -/
def attributeWords : List Kind :=
  [.kwAccess, .kwDelta, .kwDigits, .kwMod, .kwRange]

theorem reads_keywordAttribute {setting : Setting} {start : Nat}
    (known : setting.buffer.kind start ∈ attributeWords) :
    Reads setting (expr .keywordAttribute) start
      (.done (.literal .designator (setting.buffer.token start)) (start + 1)) :=
  .call (.andThen (reads_takeOneOf known (by decide)) .yield)

theorem DirectPieces.attributeWord {kind : Kind} {text : String} (known : kind ∈ attributeWords)
    (proper : TokenText kind text.toList) :
    DirectPieces [.token kind text] (.node "Attr" [.text text]) := by
  have starts : attributeWords ⊆ nameStarters := by decide
  refine ReadBack.leaf proper ⟨starts known, starts known⟩ fun setting start found same => ?_
  have known : setting.buffer.kind start ∈ attributeWords := found ▸ known
  have apart : ∀ other ∈ [ExprRule.identifier, .stringLiteral, .characterLiteral, .dereference],
      ∀ kind ∈ attributeWords, kind ∉ other.starters := by decide
  exact ⟨_, by rw [← same]; rfl,
    reads_directName [.identifier, .stringLiteral, .characterLiteral, .dereference] rfl
      (fun other member => apart other member _ known) (reads_keywordAttribute known)⟩

theorem AttributePieces.identifier {text : String} (proper : TokenText .identifier text.toList) :
    AttributePieces [.token .identifier text] (.node "Id" [.text text]) := by
  refine ReadBack.leaf proper (by decide) fun setting start found same => ?_
  have reads : Reads setting (expr .identifier) start
      (.done (.name (.simple ⟨.identifier, setting.buffer.token start⟩)) (start + 1)) :=
    .call (.andThen (.andThen (reads_take found (by decide)) .yield) .yield)
  have keyword : (expr .keywordAttribute).FailsAt setting start :=
    ExprRule.keywordAttribute.failsAt_of_start (by rw [found]; decide)
  exact ⟨_, by rw [← same]; rfl, .call (reads_orElse keyword reads)⟩

theorem AttributePieces.reserved {kind : Kind} {text : String} (known : kind ∈ attributeWords)
    (proper : TokenText kind text.toList) :
    AttributePieces [.token kind text] (.node "Attr" [.text text]) := by
  have starts : attributeWords ⊆ nameStarters := by decide
  refine ReadBack.leaf proper ⟨starts known, starts known⟩ fun setting start found same => ?_
  exact ⟨_, by rw [← same]; rfl,
    .call (reads_orElse_first (reads_keywordAttribute (found ▸ known)))⟩

/-! ### Names -/

theorem ReadBack.name (direct : DirectPieces pieces shape) : NamePieces false pieces shape where
  block := direct.block.mono (List.Subset.refl _) (by decide)
  reads := fun stands _ => by
    obtain ⟨base, same, reads⟩ := direct.reads stands (Kind.mem_every _)
    exact ⟨base, same, fun result stop further => .call (.andThen reads further)⟩

namespace Shape

/-- Whether the shape is that of a name, and whether of a simple one. -/
def isName : Shape → Bool
  | .node head _ => ["Id", "Str", "EnumId", "NamePrefix"].contains head
  | _ => false

def isIdent : Shape → Bool
  | .node head _ => ["Id", "Str"].contains head
  | _ => false

/-- The shape of a selection. -/
def selected (base selector : Shape) : Shape :=
  .node (if base.isName && selector.isIdent then "NamePrefix" else "Prefix") [base, selector]

end Shape

theorem Expr.exists_name_of_shape {expr : Expr} (named : expr.shape.isName = true) :
    ∃ path, expr = .name path := by
  cases expr with
  | name path => exact ⟨path, rfl⟩
  | literal form token => cases form <;> simp [shape, LiteralForm.shape, Shape.isName] at named
  | _ => simp [shape, Shape.isName] at named

theorem Expr.exists_ident_of_shape {expr : Expr} (simple : expr.shape.isIdent = true) :
    ∃ ident, expr = .name (.simple ident) := by
  cases expr with
  | name path =>
      cases path with
      | simple ident => exact ⟨ident, rfl⟩
      | selected => simp [shape, Name.shape, Shape.isIdent] at simple
  | literal form token => cases form <;> simp [shape, LiteralForm.shape, Shape.isIdent] at simple
  | _ => simp [shape, Shape.isIdent] at simple

theorem Expr.shape_select (base selector : Expr) :
    (base.select selector).shape = .selected base.shape selector.shape := by
  unfold select Shape.selected
  split
  next path ident =>
    have named : (name path).shape.isName = true := by
      cases path with
      | simple ident =>
          obtain ⟨form, token⟩ := ident
          cases form <;> simp [shape, Name.shape, Ident.shape, Shape.isName]
      | selected => simp [shape, Name.shape, Shape.isName]
    obtain ⟨form, token⟩ := ident
    rw [named]
    cases form <;> simp [shape, Name.shape, Ident.shape, Shape.isIdent, Name.select]
  next other =>
    have apart : (base.shape.isName && selector.shape.isIdent) = false := by
      refine Bool.eq_false_iff.mpr fun both => ?_
      obtain ⟨named, simple⟩ := Bool.and_eq_true_iff.mp both
      obtain ⟨path, rfl⟩ := exists_name_of_shape named
      obtain ⟨ident, rfl⟩ := exists_ident_of_shape simple
      exact other path ident rfl rfl
    rw [apart]
    rfl

theorem NamePieces.selection (base : NamePieces bare pieces shape)
    (selector : DirectPieces more other) :
    NamePieces false (pieces ++ .word .dot :: more) (.selected shape other) where
  block := by
    have dot : Block [.dot] [.dot] [.word .dot] := Block.word (by decide)
    have behind := dot.append selector.block (by decide)
    exact (base.block.append behind (by decide)).mono (by decide) (by decide)
  reads := fun {setting start stop} stands _ => by
    obtain ⟨middle, standsBase, dot, _, standsSelector⟩ := Setting.stands_append.mp stands
    obtain ⟨tree, same, reads⟩ := base.reads standsBase fun _ => by rw [dot]; decide
    obtain ⟨selected, sameSelector, readsSelector⟩ :=
      selector.reads standsSelector (Kind.mem_every _)
    have step : Reads setting (call (.step .selection)) middle (.done (.select selected) stop) :=
      .call (.andThen (reads_take dot (by decide)) (.andThen readsSelector .yield))
    have call : (call (.step .call)).FailsAt setting middle :=
      StepRule.call.failsAt_of_start (by rw [dot]; decide)
    refine ⟨tree.select selected, by rw [Expr.shape_select, same, sameSelector],
      fun result stop further => reads _ _ ?_⟩
    exact reads_nameSteps [.call] rfl (by simpa using call) step further

/-- A name with a suffix in parentheses. -/
theorem NamePieces.call (callee : NamePieces false pieces shape) (suffix : SuffixPieces more other) :
    NamePieces false (pieces ++ .space :: Piece.parenthesized more)
      (.node "CallExpr" [shape, other]) where
  block := (callee.block.space suffix.block.parenthesized).mono (by decide) (by decide)
  reads := fun {setting start stop} stands _ => by
    obtain ⟨middle, standsCallee, standsSuffix⟩ := Setting.stands_append.mp stands
    obtain ⟨last, opened, inner, closed, rfl⟩ := Setting.Stands.parenthesized standsSuffix
    obtain ⟨tree, same, reads⟩ := callee.reads standsCallee nofun
    obtain ⟨arguments, sameSuffix, readsSuffix⟩ := suffix.reads inner (by rw [closed]; decide)
    have step : Reads setting (Program.call (.step .call)) middle
        (.done (.call arguments (setting.buffer.token last).span) (last + 1)) :=
      .call (.andThen (reads_take opened (by decide)) (.andThen readsSuffix
        (.andThen (reads_take closed (by decide)) .yield)))
    refine ⟨NameStep.extend tree (.call arguments (setting.buffer.token last).span),
      by rw [← same, ← sameSuffix]; rfl, fun result stop further => reads _ _ ?_⟩
    exact reads_nameSteps [] rfl (by simp) step further

/-- The steps before an attribute or a qualification fail at a tick. -/
theorem failsAt_before_tick {setting : Setting} {start : Nat}
    (tick : setting.buffer.kind start = .tick) :
    ∀ rule ∈ [StepRule.call, .selection], (Program.call (.step rule)).FailsAt setting start := by
  have apart : ∀ rule ∈ [StepRule.call, .selection], Kind.tick ∉ rule.starters := by decide
  exact fun rule member => rule.failsAt_of_start (tick ▸ apart rule member)

theorem block_tick {last last' first : List Kind} (base : Block nameStarters last pieces)
    (behind : Block first last' more) :
    Block nameStarters last' (pieces ++ .word .tick :: more) := by
  have tick : Block [.tick] [.tick] [.word .tick] := Block.word (by decide)
  exact base.append (tick.append behind fun kind member _ _ => by simp_all [Kind.fits])
    fun kind _ next member => by simp_all [Kind.fits]

theorem NamePieces.attribute (base : NamePieces bare pieces shape)
    (designator : AttributePieces more other) :
    NamePieces true (pieces ++ .word .tick :: more)
      (.node "AttributeRef" [shape, other, .none]) where
  block := (block_tick base.block designator.block).mono (List.Subset.refl _) (by decide)
  reads := fun {setting start stop} stands open_ => by
    obtain ⟨middle, standsBase, tick, _, standsDesignator⟩ := Setting.stands_append.mp stands
    obtain ⟨tree, same, reads⟩ := base.reads standsBase fun _ => by rw [tick]; decide
    obtain ⟨named, sameDesignator, readsDesignator⟩ :=
      designator.reads standsDesignator (Kind.mem_every _)
    have arguments : (parenthesized (Program.call .callSuffix)).FailsAt setting stop :=
      (FailsAt.take (open_ rfl)).bind
    let last := (setting.extent middle stop).last.span
    have step : Reads setting (Program.call (.step .attributeRef)) middle
        (.done (.attributeRef named none last) stop) :=
      .call (.andThen (.extent (.andThen (reads_take tick (by decide)) (.andThen readsDesignator
        (.andThen (reads_attempt_none arguments) .yield)))) .yield)
    refine ⟨NameStep.extend tree (.attributeRef named none last),
      by rw [← same, ← sameDesignator]; rfl, fun result stop further => reads _ _ ?_⟩
    exact reads_nameSteps [.call, .selection] rfl (failsAt_before_tick tick) step further

theorem NamePieces.attributeCall {inner : List Piece} {suffix : Shape}
    (base : NamePieces bare pieces shape) (designator : AttributePieces more other)
    (arguments : SuffixPieces inner suffix) :
    NamePieces false (pieces ++ .word .tick :: (more ++ .space :: Piece.parenthesized inner))
      (.node "AttributeRef" [shape, other, suffix]) where
  block := (block_tick base.block (designator.block.space arguments.block.parenthesized)).mono
    (List.Subset.refl _) (by decide)
  reads := fun {setting start stop} stands _ => by
    obtain ⟨middle, standsBase, tick, _, behind⟩ := Setting.stands_append.mp stands
    obtain ⟨index, standsDesignator, standsSuffix⟩ := Setting.stands_append.mp behind
    obtain ⟨last, opened, standsInner, closed, rfl⟩ := Setting.Stands.parenthesized standsSuffix
    obtain ⟨tree, same, reads⟩ := base.reads standsBase fun _ => by rw [tick]; decide
    obtain ⟨named, sameDesignator, readsDesignator⟩ :=
      designator.reads standsDesignator (Kind.mem_every _)
    obtain ⟨given, sameGiven, readsGiven⟩ := arguments.reads standsInner (by rw [closed]; decide)
    have parenthesized : Reads setting (parenthesized (Program.call .callSuffix)) index
        (.done given (last + 1)) := reads_enclosed opened readsGiven closed
    let end_ := (setting.extent middle (last + 1)).last.span
    have step : Reads setting (Program.call (.step .attributeRef)) middle
        (.done (.attributeRef named (some given) end_) (last + 1)) :=
      .call (.andThen (.extent (.andThen (reads_take tick (by decide)) (.andThen readsDesignator
        (.andThen (.attempt parenthesized) .yield)))) .yield)
    refine ⟨NameStep.extend tree (.attributeRef named (some given) end_),
      by rw [← same, ← sameDesignator, ← sameGiven]; rfl, fun result stop further => reads _ _ ?_⟩
    exact reads_nameSteps [.call, .selection] rfl (failsAt_before_tick tick) step further

/-- A qualification of what is read behind the tick, which starts with a parenthesis. -/
theorem NamePieces.qualification (base : NamePieces bare pieces shape)
    (block : Block [.openParen] [.closeParen] more)
    (operand : ∀ {setting : Setting} {start stop : Nat}, setting.Stands more start stop →
      ∃ tree, tree.shape = other ∧ Reads setting
        (orElse (parenthesized (expr .expression)) (expr .aggregate)) start (.done tree stop)) :
    NamePieces false (pieces ++ .word .tick :: more) (.node "QualExpr" [shape, other]) where
  block := (block_tick base.block block).mono (List.Subset.refl _) (by decide)
  reads := fun {setting start stop} stands _ => by
    obtain ⟨middle, standsBase, tick, _, behind⟩ := Setting.stands_append.mp stands
    have opened : setting.buffer.kind (middle + 1) = .openParen := by
      simpa using Setting.Stands.kind_mem behind block
    obtain ⟨tree, same, reads⟩ := base.reads standsBase fun _ => by rw [tick]; decide
    obtain ⟨inner, sameInner, readsInner⟩ := operand behind
    let last := (setting.extent middle stop).last.span
    have step : Reads setting (Program.call (.step .qualification)) middle
        (.done (.qualify inner last) stop) :=
      .call (.andThen (.extent (.andThen (reads_take tick (by decide)) readsInner)) .yield)
    have fails : ∀ rule ∈ [StepRule.call, .selection] ++ [.attributeRef],
        (Program.call (.step rule)).FailsAt setting middle :=
      List.forall_mem_append.mpr ⟨failsAt_before_tick tick,
        List.forall_mem_singleton.mpr (failsAt_attributeRef tick (by rw [opened]; decide))⟩
    refine ⟨NameStep.extend tree (.qualify inner last), by rw [← same, ← sameInner]; rfl,
      fun result stop further => reads _ _ ?_⟩
    exact reads_nameSteps [.call, .selection, .attributeRef] rfl fails step further

/-- A qualified expression in parentheses of its own. -/
theorem NamePieces.qualified {follow : List Kind} (base : NamePieces bare pieces shape)
    (operand : ExprPieces follow more other) (known : .closeParen ∈ follow) :
    NamePieces false (pieces ++ .word .tick :: Piece.parenthesized more)
      (.node "QualExpr" [shape, other]) := by
  refine base.qualification operand.block.parenthesized fun stands => ?_
  obtain ⟨last, opened, inner, closed, rfl⟩ := stands.parenthesized
  obtain ⟨tree, same, reads⟩ := operand.reads inner (closed ▸ known)
  exact ⟨tree, same, reads_orElse_first (reads_enclosed opened reads closed)⟩

/-- A name is read as a rule of its own where no step goes on with it. -/
theorem NamePieces.reads_name {setting : Setting} {start stop : Nat}
    (name : NamePieces bare pieces shape) (stands : setting.Stands pieces start stop)
    (ends : setting.buffer.kind stop ∉ stepStarters) :
    ∃ tree, tree.shape = shape ∧ Reads setting (expr .name) start (.done tree stop) := by
  obtain ⟨tree, same, reads⟩ := name.reads stands fun _ opened => ends (by rw [opened]; decide)
  exact ⟨tree, same, reads _ _ (reads_nameSteps_end ends)⟩

/-- A name is an operand. -/
theorem NamePieces.primary (name : NamePieces bare pieces shape) : PrimaryPieces pieces shape where
  block := name.block.mono (by decide) (by decide)
  reads := fun stands ends => by
    obtain ⟨tree, same, reads⟩ := name.reads_name stands ends
    exact ⟨tree, same, reads_primary_of_name reads⟩

end

end AdaExpressions
