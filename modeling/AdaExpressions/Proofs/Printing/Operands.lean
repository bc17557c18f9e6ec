import AdaExpressions.Proofs.Printing.Standing
import AdaExpressions.Proofs.Tree.Formed

/-!
# Printed operators

Operands are primaries, if only by their parentheses, so an operator has a primary on each side that
it asks for. What stands in the buffer is read at the level of the operator, since the operator ends
every tighter chain to its left and what follows the expression ends all of them.

Results: `PrimaryPieces.unary`, `PrimaryPieces.binary`, `PrimaryPieces.membership`.
-/

namespace AdaExpressions

open Lexeme (TokenText)
open Program Grammar

variable {setting : Setting} {start stop : Nat} {pieces more : List Piece} {shape other : Shape}

/-- The pieces of a range, which stands where a choice or a whole expression may stand. -/
abbrev RangePieces : List Piece → Shape → Prop :=
  ReadBack printedHeads printedLasts (.pipe :: printedFollow) (.expr .discreteRange) Expr.shape

/-! ### Literals -/

theorem PrimaryPieces.number {text : String} (proper : TokenText .number text.toList) :
    PrimaryPieces [.token .number text] (.node "Num" [.text text]) where
  block := (Block.token proper).mono (by decide) (by decide)
  reads := fun ⟨found, same, ends⟩ _ => by
    cases ends
    exact ⟨_, by rw [← same]; rfl, reads_number found⟩

theorem reads_null (found : setting.buffer.kind start = .kwNull) :
    Reads setting (expr .primary) start
      (.done (.literal .null (setting.buffer.token start)) (start + 1)) := by
  have null : Reads setting (expr .nullLiteral) start
      (.done (.literal .null (setting.buffer.token start)) (start + 1)) :=
    .call (.andThen (reads_take found (by decide)) .yield)
  have number : (expr .numberLiteral).FailsAt setting start :=
    ExprRule.failsAt_of_start _ (by rw [found]; decide)
  exact .call (.remember (reads_choice [.numberLiteral] rfl (by simpa using number) null))

theorem PrimaryPieces.null {text : String} (proper : TokenText .kwNull text.toList) :
    PrimaryPieces [.token .kwNull text] (.text "Null") where
  block := (Block.token proper).mono (by decide) (by decide)
  reads := fun ⟨found, _, ends⟩ _ => by
    cases ends
    exact ⟨_, rfl, reads_null found⟩

/-! ### Operators -/

theorem Op.block_pieces (op : Op) : ∃ first last, Block first last op.pieces := by
  have spelt : ∀ kind ∈ op.words, kind ∈ Kind.delimiters ++ Kind.reservedWords := by
    cases op <;> decide
  unfold Op.pieces
  obtain ⟨first, one | ⟨second, two⟩⟩ := op.words_cases
  · rw [one] at spelt ⊢
    exact ⟨_, _, Block.word (spelt first (by simp))⟩
  · rw [two] at spelt ⊢
    exact ⟨_, _, (Block.word (spelt first (by simp))).space (Block.word (spelt second (by simp)))⟩

theorem Block.binary {first last first' last' : List Kind} (left : Block first last pieces)
    (op : Op) (right : Block first' last' more) :
    Block first last' (pieces ++ op.binaryPieces ++ more) := by
  obtain ⟨_, _, words⟩ := op.block_pieces
  simpa [Op.binaryPieces] using left.space (words.space right)

theorem Setting.Stands.binary {op : Op}
    (stands : setting.Stands (pieces ++ op.binaryPieces ++ more) start stop) :
    ∃ middle, setting.Stands pieces start middle ∧ setting.WordsAt op.words middle ∧
      setting.Stands more (middle + op.words.length) stop := by
  simp only [Op.binaryPieces, List.append_assoc, List.cons_append] at stands
  obtain ⟨middle, left, rest⟩ := Setting.stands_append.mp stands
  obtain ⟨words, right⟩ := Setting.Stands.operator (Setting.stands_space.mp rest)
  exact ⟨middle, left, words, right⟩

theorem Setting.Stands.unary {op : Op}
    (stands : setting.Stands (op.unaryPieces ++ pieces) start stop) :
    setting.WordsAt op.words start ∧ setting.Stands pieces (start + op.words.length) stop := by
  unfold Op.unaryPieces at stands
  split at stands
  · rw [List.append_assoc] at stands
    exact stands.operator
  · rw [List.append_assoc] at stands
    exact stands.operator
  · exact stands.operator

theorem operatorAt_of_words {op : Op} {table : List Op} {first last : List Kind} {middle : Nat}
    (words : setting.WordsAt op.words middle) (known : op ∈ table) (distinct : Op.Distinct table)
    (behind : setting.Stands pieces (middle + op.words.length) stop) (block : Block first last pieces)
    (heads : first ⊆ operandStarters) : setting.OperatorAt table op middle :=
  words.next? distinct known (heads (behind.kind_mem block))

/-- A unary operator in front of an operand. -/
theorem PrimaryPieces.unary {op : Op} (known : op ∈ Op.unary) (operand : PrimaryPieces pieces shape) :
    ExprPieces printedFollow (op.unaryPieces ++ pieces) (.node "UnOp" [op.shape, shape]) where
  block := by
    have apart : ∀ kind ∈ operandHeads, Kind.plus.fits kind = true ∧ Kind.dash.fits kind = true := by
      decide
    simp only [Op.unary, Op.unaryAdding, Op.highestUnary, List.cons_append, List.nil_append,
      List.mem_cons, List.not_mem_nil, or_false] at known
    rcases known with rfl | rfl | rfl | rfl
    -- A sign stands right before its operand, which starts with no sign; a word needs the space.
    · exact ((Block.word (by decide)).append operand.block fun kind member next known => by
        rw [List.mem_singleton.mp member]
        exact (apart next known).1).mono (by decide) (by decide)
    · exact ((Block.word (by decide)).append operand.block fun kind member next known => by
        rw [List.mem_singleton.mp member]
        exact (apart next known).2).mono (by decide) (by decide)
    · exact ((Block.word (by decide)).space operand.block).mono (by decide) (by decide)
    · exact ((Block.word (by decide)).space operand.block).mono (by decide) (by decide)
  reads := fun {setting start stop} stands follows => by
    obtain ⟨ends, name, _⟩ := endsAt_of_follow (List.mem_cons_of_mem _ follows)
    obtain ⟨words, standsOperand⟩ := stands.unary
    obtain ⟨tree, same, reads⟩ := operand.reads standsOperand name
    have plain := plainAt_of_operand standsOperand operand.block
    let span := (setting.extent start (start + op.words.length)).span
    refine ⟨.ofUnary op span tree, by rw [← same]; rfl, ?_⟩
    -- A sign is read in front of a term, `abs` and `not` in front of a primary.
    rcases List.mem_append.mp known with adding | highest
    · have next := operatorAt_of_words words adding (by decide) standsOperand operand.block (by decide)
      have term := reads_term_of_primary plain reads (ends.not_mem (by decide))
      exact reads_expression_of_simpleExpr (reads_simpleExpr
        (reads_leftChain (reads_unopTerm_unary next term) (ends.not_mem (by decide)))) ends
    · have next := operatorAt_of_words words highest (by decide) standsOperand operand.block (by decide)
      have first : ∀ kind ∈ Op.starters Op.highestUnary, kind ∉ Op.starters Op.unaryAdding := by
        decide
      have term : Reads setting (expr .term) start (.done (.ofUnary op span tree) stop) :=
        .call (reads_leftChain (reads_factor_unary next reads) (ends.not_mem (by decide)))
      exact reads_expression_of_term (first _ next.kind_mem) term ends

/-- A binary operator between two operands, read at the level of its table. -/
theorem PrimaryPieces.binary {op : Op} (known : op ∈ Op.binary) (left : PrimaryPieces pieces shape)
    (right : PrimaryPieces more other) :
    ExprPieces printedFollow (pieces ++ op.binaryPieces ++ more)
      (.node "BinOp" [shape, op.shape, other]) where
  block := (left.block.binary op right.block).mono (by decide) (by decide)
  reads := fun {setting start stop} stands follows => by
    obtain ⟨ends, name, _⟩ := endsAt_of_follow (List.mem_cons_of_mem _ follows)
    obtain ⟨middle, standsLeft, words, standsRight⟩ := stands.binary
    have leftName : ∀ kind ∈ Op.starters Op.binary, kind ∉ stepStarters := by decide
    obtain ⟨first, sameLeft, readsLeft⟩ := left.reads standsLeft (leftName _ (words.kind_mem known))
    obtain ⟨second, sameRight, readsRight⟩ := right.reads standsRight name
    have plain := plainAt_of_operand standsLeft left.block
    have plainRight := plainAt_of_operand standsRight right.block
    have next {table : List Op} (known : op ∈ table) (distinct : Op.Distinct table) :
        setting.OperatorAt table op middle :=
      operatorAt_of_words words known distinct standsRight right.block (by decide)
    refine ⟨.ofBinary first op second, by rw [← sameLeft, ← sameRight]; rfl, ?_⟩
    simp only [Op.binary, List.mem_append] at known
    -- The operator ends everything that binds tighter, so its operands are read one level below.
    rcases known with (((logical | relational) | adding) | multiplying) | exponent
    · have before : ∀ kind ∈ Op.starters Op.logical, kind ∉ Op.starters Op.relationJoining := by
        decide
      exact reads_expression_logical
        (reads_relation_of_primary plain readsLeft (before _ (words.kind_mem logical)))
        (next logical (by decide))
        (reads_relation_of_primary plainRight readsRight (ends.not_mem (by decide)))
        (ends.not_mem (by decide))
    · have before : ∀ kind ∈ Op.starters Op.relational, kind ∉ Op.starters Op.simpleJoining := by
        decide
      exact reads_expression (reads_relation_comparison
        (reads_simpleExpr_of_primary plain readsLeft (before _ (words.kind_mem relational)))
        (next relational (by decide))
        (reads_simpleExpr_of_primary plainRight readsRight (ends.not_mem (by decide)))
        (ends.not_mem (by decide))) (ends.not_mem (by decide))
    · have before : ∀ kind ∈ Op.starters Op.adding, kind ∉ Op.starters Op.termJoining := by
        decide
      have term := reads_term_of_primary plain readsLeft (before _ (words.kind_mem adding))
      exact reads_expression_of_simpleExpr (reads_simpleExpr (reads_leftChain_binary
        (reads_unopTerm (plain.not_mem (by decide)) term) (next adding (by decide))
        (reads_term_of_primary plainRight readsRight (ends.not_mem (by decide)))
        (ends.not_mem (by decide)))) ends
    · have before : ∀ kind ∈ Op.starters Op.multiplying, kind ∉ Op.starters Op.exponent := by
        decide
      have factor := reads_factor (plain.not_mem (by decide)) readsLeft
        (before _ (words.kind_mem multiplying))
      exact reads_expression_of_term (plain.not_mem (by decide)) (.call (reads_leftChain_binary factor
        (next multiplying (by decide))
        (reads_factor (plainRight.not_mem (by decide)) readsRight (ends.not_mem (by decide)))
        (ends.not_mem (by decide)))) ends
    · have factor := reads_factor_power (plain.not_mem (by decide)) readsLeft
        (next exponent (by decide)) readsRight
      exact reads_expression_of_term (plain.not_mem (by decide))
        (.call (reads_leftChain factor (ends.not_mem (by decide)))) ends

/-! ### Ranges and membership tests -/

theorem PrimaryPieces.range (low : PrimaryPieces pieces shape) (high : PrimaryPieces more other) :
    RangePieces (pieces ++ Op.range.binaryPieces ++ more)
      (.node "BinOp" [shape, Op.range.shape, other]) where
  block := (low.block.binary .range high.block).mono (by decide) (by decide)
  reads := fun stands follows => by
    obtain ⟨ends, name, _⟩ := endsAt_of_follow follows
    obtain ⟨middle, standsLow, ⟨dots, _⟩, standsHigh⟩ := stands.binary
    obtain ⟨first, sameLow, readsLow⟩ := low.reads standsLow (by rw [dots]; decide)
    obtain ⟨second, sameHigh, readsHigh⟩ := high.reads standsHigh name
    refine ⟨.ofBinary first .range second, by rw [← sameLow, ← sameHigh]; rfl, ?_⟩
    exact reads_discreteRange
      (reads_simpleExpr_of_primary (plainAt_of_operand standsLow low.block) readsLow
        (by rw [dots]; decide)) dots
      (reads_simpleExpr_of_primary (plainAt_of_operand standsHigh high.block) readsHigh
        (ends.not_mem (by decide)))

theorem ReadBack.choice_of_range (range : RangePieces pieces shape) : ChoicePieces pieces shape where
  block := range.block.mono (by decide) (by decide)
  reads := fun stands follows => by
    obtain ⟨tree, same, reads⟩ := range.reads stands follows
    exact ⟨.expr tree, same, reads_choice_range reads⟩

theorem PrimaryPieces.choice (primary : PrimaryPieces pieces shape) : ChoicePieces pieces shape where
  block := primary.block.mono (by decide) (by decide)
  reads := fun stands follows => by
    obtain ⟨tree, same, reads⟩ := primary.reads_whole stands follows
    exact ⟨.expr tree, same, reads_choice_expression reads (endsAt_of_follow follows).2.2⟩

theorem ChoicePieces.others : ChoicePieces [.word .kwOthers] (.text "OthersDesignator") where
  block := (Block.word (by decide)).mono (by decide) (by decide)
  reads := fun ⟨found, _, ends⟩ _ => by
    cases ends
    exact ⟨_, rfl, reads_choice_others found⟩

theorem Choice.listPieces_eq (choices : List Choice) :
    Choice.listPieces choices = Piece.listed (Piece.spaced .pipe) Choice.pieces choices := by
  induction choices with
  | nil => rfl
  | cons choice rest ih => cases rest <;> simp_all [listPieces, Piece.listed]

theorem Choice.shapes_eq (choices : List Choice) :
    Choice.shapes choices = choices.map Choice.shape := by
  induction choices <;> simp_all [shapes]

theorem ChoicePieces.list {choices : List Choice} (some_ : choices ≠ [])
    (each : ∀ choice ∈ choices, ChoicePieces choice.pieces choice.shape) :
    ReadBack (.kwOthers :: printedHeads) printedLasts printedFollow (.call .choiceList) Choice.shapes
      (Choice.listPieces choices) (Choice.shapes choices) where
  block := by
    rw [Choice.listPieces_eq]
    exact block_listed (separates_spaced (by decide)) some_ fun choice member =>
      (each choice member).block
  reads := fun stands follows => by
    rw [Choice.listPieces_eq] at stands
    obtain ⟨read, same, reads⟩ := (ReadBack.list (separates_spaced (by decide)) (by decide) some_ each
      (by decide)).reads stands follows
    exact ⟨read, by rw [Choice.shapes_eq, same, Choice.shapes_eq], .call reads⟩

theorem PrimaryPieces.membership {op : Op} (known : op ∈ Op.membership) {choices : List Choice}
    (tested : PrimaryPieces pieces shape) (some_ : choices ≠ [])
    (each : ∀ choice ∈ choices, ChoicePieces choice.pieces choice.shape) :
    ExprPieces printedFollow (pieces ++ op.binaryPieces ++ Choice.listPieces choices)
      (.node "MembershipExpr" [shape, op.shape, .list "" (Choice.shapes choices)]) where
  block := (tested.block.binary op (ChoicePieces.list some_ each).block).mono (by decide) (by decide)
  reads := fun {setting start stop} stands follows => by
    obtain ⟨ends, _⟩ := endsAt_of_follow (List.mem_cons_of_mem _ follows)
    obtain ⟨middle, standsTested, words, standsChoices⟩ := stands.binary
    have before : ∀ kind ∈ Op.starters Op.membership,
        kind ∉ stepStarters ∧ kind ∉ Op.starters Op.simpleJoining := by decide
    obtain ⟨name, simple⟩ := before _ (words.kind_mem known)
    obtain ⟨tree, same, reads⟩ := tested.reads standsTested name
    have next := operatorAt_of_words words known (by decide) standsChoices
      (ChoicePieces.list some_ each).block (by decide)
    obtain ⟨read, sameChoices, readsChoices⟩ :=
      (ChoicePieces.list some_ each).reads standsChoices follows
    obtain ⟨span, relation⟩ := reads_relation_membership
      (reads_simpleExpr_of_primary (plainAt_of_operand standsTested tested.block) reads simple)
      next readsChoices
    refine ⟨.membership tree op read span, ?_, reads_expression relation (ends.not_mem (by decide))⟩
    rw [Expr.shape, same, sameChoices]

end AdaExpressions
