import AdaExpressions.Expr.Shape
import AdaExpressions.Proofs.Grammar.Parentheses
import AdaExpressions.Proofs.Printing.Blocks

/-!
# What printed pieces are read as

The tokens of printed pieces stand in a buffer. `ReadBack … program view pieces shape` says that
wherever they stand, a value that looks like `shape` is read from them to their end, if a token of a
kind in `follow` stands behind them. `PrimaryPieces` says it of operands, behind which anything may
stand but what goes on with a name, and `ExprPieces` of whole expressions.

Results: `ReadBack.list`, `PrimaryPieces.expression`, `ExprPieces.parenthesized`.
-/

namespace AdaExpressions

open Lexeme (TokenText)

/-- The tokens among the pieces stand in the buffer from `start` up to `stop`. -/
def Setting.Stands (setting : Setting) : List Piece → (start stop : Nat) → Prop
  | [], start, stop => start = stop
  | .space :: more, start, stop => setting.Stands more start stop
  | .token kind text :: more, start, stop => setting.buffer.kind start = kind ∧
      (setting.buffer.token start).text = text ∧ setting.Stands more (start + 1) stop

namespace Setting

variable {setting : Setting} {start stop : Nat} {pieces more : List Piece}

@[simp] theorem stands_nil : setting.Stands [] start stop ↔ start = stop := Iff.rfl

@[simp] theorem stands_space :
    setting.Stands (.space :: more) start stop ↔ setting.Stands more start stop := Iff.rfl

@[simp] theorem stands_token {kind : Kind} {text : String} :
    setting.Stands (.token kind text :: more) start stop ↔ setting.buffer.kind start = kind ∧
      (setting.buffer.token start).text = text ∧ setting.Stands more (start + 1) stop := Iff.rfl

theorem stands_append :
    setting.Stands (pieces ++ more) start stop ↔
      ∃ middle, setting.Stands pieces start middle ∧ setting.Stands more middle stop := by
  induction pieces generalizing start with
  | nil => simp
  | cons piece rest ih => cases piece <;> simp [ih, and_assoc]

theorem stands_cons_word {kind : Kind} :
    setting.Stands (.word kind :: more) start stop → setting.buffer.kind start = kind ∧
      setting.Stands more (start + 1) stop := fun stands => ⟨stands.1, stands.2.2⟩

theorem Stands.parenthesized (stands : setting.Stands (Piece.parenthesized pieces) start stop) :
    ∃ last, setting.buffer.kind start = .openParen ∧ setting.Stands pieces (start + 1) last ∧
      setting.buffer.kind last = .closeParen ∧ stop = last + 1 := by
  obtain ⟨opened, _, inner⟩ := stands
  obtain ⟨last, inner, closed, _, ends⟩ := stands_append.mp inner
  exact ⟨last, opened, inner, closed, ends.symm⟩

/-- Pieces, a word between spaces, and further pieces. -/
theorem Stands.spaced {kind : Kind}
    (stands : setting.Stands (pieces ++ Piece.spaced kind ++ more) start stop) :
    ∃ middle, setting.Stands pieces start middle ∧ setting.buffer.kind middle = kind ∧
      setting.Stands more (middle + 1) stop := by
  rw [List.append_assoc] at stands
  obtain ⟨middle, front, word, _, behind⟩ := stands_append.mp stands
  exact ⟨middle, front, word, behind⟩

/-- The words of an operator stand where its pieces do. -/
theorem Stands.operator {op : Op} (stands : setting.Stands (op.pieces ++ more) start stop) :
    setting.WordsAt op.words start ∧ setting.Stands more (start + op.words.length) stop := by
  obtain ⟨first, one | ⟨second, two⟩⟩ := op.words_cases
  · rw [Op.pieces, one] at stands
    rw [one]
    exact ⟨⟨stands.1, trivial⟩, stands.2.2⟩
  · rw [Op.pieces, two] at stands
    rw [two]
    exact ⟨⟨stands.1, stands.2.2.1, trivial⟩, stands.2.2.2.2⟩

theorem Stands.kind_mem {first last : List Kind} (stands : setting.Stands pieces start stop)
    (block : Block first last pieces) : setting.buffer.kind start ∈ first := by
  obtain ⟨kind, text, head, known⟩ := block.head
  obtain ⟨rest, rfl⟩ : ∃ rest, pieces = .token kind text :: rest :=
    ⟨_, List.eq_cons_of_mem_head? head⟩
  exact stands.1 ▸ known

/-- Tokens that were made of the pieces stand as they do. -/
theorem stands_of_textAt {text : List Token} (textAt : setting.TextAt text start)
    (same : text.map (fun token => (token.kind, token.text)) = Piece.tokens pieces) :
    setting.Stands pieces start (start + text.length) := by
  induction pieces generalizing text start with
  | nil =>
      cases List.map_eq_nil_iff.mp same
      rfl
  | cons piece more ih =>
      cases piece with
      | space => exact ih textAt same
      | token kind word =>
          obtain ⟨token, rest, rfl, found, rest_⟩ := List.map_eq_cons_iff.mp same
          cases found
          refine ⟨textAt.kind, congrArg Token.text textAt.1, ?_⟩
          rw [List.length_cons, show start + (rest.length + 1) = start + 1 + rest.length by omega]
          exact ih textAt.2 rest_

end Setting

/-! ### What is read back -/

structure ReadBack {α σ : Type} (first last follow : List Kind) (program : Program α) (view : α → σ)
    (pieces : List Piece) (shape : σ) : Prop where
  block : Block first last pieces
  reads {setting : Setting} {start stop : Nat} :
    setting.Stands pieces start stop → setting.buffer.kind stop ∈ follow →
    ∃ value, view value = shape ∧ Reads setting program start (.done value stop)

/-- The kinds that what a name goes on with starts with. -/
def stepStarters : List Kind :=
  [.openParen, .dot, .tick]

/-- The kinds that printed operands start with, and those they end with. -/
def operandHeads : List Kind :=
  [.number, .kwNull, .kwNew, .openParen] ++ nameStarters

def operandLasts : List Kind :=
  [.number, .kwNull, .closeParen] ++ nameStarters

/-- The kinds that printed expressions start with, and those they end with. -/
def printedHeads : List Kind :=
  [.plus, .dash, .kwAbs, .kwNot, .kwRaise] ++ operandHeads

def printedLasts : List Kind :=
  [.kwRaise, .kwOthers] ++ operandLasts

/-- The kinds of what is printed behind a whole expression. -/
def printedFollow : List Kind :=
  [.closeParen, .kwThen, .kwElsif, .kwElse, .kwIs, .comma, .arrow, .kwWith, .eof]

/-- The kinds of what is printed behind an expression that goes on with `with`. -/
def raiseFollow : List Kind :=
  printedFollow.erase .kwWith

structure PrimaryPieces (pieces : List Piece) (shape : Shape) : Prop where
  block : Block operandHeads operandLasts pieces
  reads {setting : Setting} {start stop : Nat} :
    setting.Stands pieces start stop → setting.buffer.kind stop ∉ stepStarters →
    ∃ tree, tree.shape = shape ∧ Reads setting (.expr .primary) start (.done tree stop)

/-- The pieces of an expression in front of a token of a kind in `follow`. -/
abbrev ExprPieces (follow : List Kind) : List Piece → Shape → Prop :=
  ReadBack printedHeads printedLasts follow (.expr .expression) Expr.shape

/-- The pieces of a choice, which is followed by a bar or as an expression is. -/
abbrev ChoicePieces : List Piece → Shape → Prop :=
  ReadBack (.kwOthers :: printedHeads) printedLasts (.pipe :: printedFollow) (.call .choice)
    Choice.shape

namespace ReadBack

variable {α σ : Type} {first last follow : List Kind} {program : Program α} {view : α → σ}

theorem mono {first' last' follow' : List Kind} {pieces : List Piece} {shape : σ}
    (back : ReadBack first last follow program view pieces shape) (heads : first ⊆ first')
    (lasts : last ⊆ last') (less : follow' ⊆ follow) :
    ReadBack first' last' follow' program view pieces shape where
  block := back.block.mono heads lasts
  reads := fun stands follows => back.reads stands (less follows)

end ReadBack

/-! ### Lists -/

/-- Items one after another with a separator between them. -/
def Piece.listed {β : Type} (separator : List Piece) (pieces : β → List Piece) : List β → List Piece
  | [] => []
  | [item] => pieces item
  | item :: next :: more => pieces item ++ separator ++ listed separator pieces (next :: more)

/-- The pieces are those of a separator: one token that any two blocks may stand around. -/
structure Separates (kind : Kind) (separator : List Piece) : Prop where
  block {first last first' last' : List Kind} {pieces more : List Piece} :
    Block first last pieces → Block first' last' more →
    Block first last' (pieces ++ separator ++ more)
  stands {setting : Setting} {start stop : Nat} {pieces more : List Piece} :
    setting.Stands (pieces ++ separator ++ more) start stop →
    ∃ middle, setting.Stands pieces start middle ∧ setting.buffer.kind middle = kind ∧
      setting.Stands more (middle + 1) stop

theorem separates_spaced {kind : Kind} (spelt : kind ∈ Kind.delimiters ++ Kind.reservedWords) :
    Separates kind (Piece.spaced kind) where
  block := fun block other => block.spaced other spelt
  stands := fun stands => stands.spaced

theorem separates_comma : Separates .comma [.word .comma, .space] where
  block := fun {_ _ _ _ pieces more} block other => by
    have front := block.append (Block.word (show Kind.comma ∈ _ by decide)) fun kind _ next member => by
      rw [List.mem_singleton.mp member]
      simp [Kind.fits]
    simpa using front.space other
  stands := fun {setting start stop pieces more} stands => by
    rw [List.append_assoc] at stands
    obtain ⟨middle, front, comma, _, behind⟩ := Setting.stands_append.mp stands
    exact ⟨middle, front, comma, behind⟩

section

variable {α β σ : Type} {first last follow : List Kind} {program : Program α} {view : α → σ}
  {separator : List Piece} {kind : Kind} {pieces : β → List Piece} {shape : β → σ}

theorem block_listed (separates : Separates kind separator) {items : List β} (some_ : items ≠ [])
    (each : ∀ item ∈ items, Block first last (pieces item)) :
    Block first last (Piece.listed separator pieces items) := by
  induction items with
  | nil => exact absurd rfl some_
  | cons item rest ih =>
      have here := each item List.mem_cons_self
      cases rest with
      | nil => exact here
      | cons next rest =>
          exact separates.block here (ih (List.cons_ne_nil _ _) fun item member =>
            each item (List.mem_cons_of_mem _ member))

/-- Items are read one after another. -/
theorem reads_listed (separates : Separates kind separator) (known : kind ∈ follow)
    {setting : Setting} {start stop : Nat} {item : β} {rest : List β}
    (each : ∀ other ∈ item :: rest,
      ReadBack first last follow program view (pieces other) (shape other))
    (stands : setting.Stands (Piece.listed separator pieces (item :: rest)) start stop)
    (follows : setting.buffer.kind stop ∈ follow) :
    ∃ value more middle, (value :: more).map view = (item :: rest).map shape ∧
      Reads setting program start (.done value middle) ∧
      setting.ReadsMore kind program more middle stop := by
  induction rest generalizing item start with
  | nil =>
      obtain ⟨value, same, reads⟩ := (each item List.mem_cons_self).reads stands follows
      exact ⟨value, [], stop, by simp [same], reads, rfl⟩
  | cons next rest ih =>
      obtain ⟨middle, standsFirst, bar, standsRest⟩ := separates.stands stands
      obtain ⟨value, same, reads⟩ :=
        (each item List.mem_cons_self).reads standsFirst (bar ▸ known)
      obtain ⟨second, more, last, sameRest, readsSecond, readsMore⟩ :=
        ih (fun other member => each other (List.mem_cons_of_mem _ member)) standsRest
      exact ⟨value, second :: more, middle, congrArg₂ List.cons same sameRest, reads, bar, last,
        readsSecond, readsMore⟩

/-- A list is read back that is followed as its items are, except by a separator. -/
theorem ReadBack.list (separates : Separates kind separator) (more : kind ≠ .eof)
    {items : List β} (some_ : items ≠ [])
    (each : ∀ item ∈ items,
      ReadBack first last (kind :: follow) program view (pieces item) (shape item))
    (apart : kind ∉ follow) :
    ReadBack first last follow (Program.separated kind program) (List.map view)
      (Piece.listed separator pieces items) (items.map shape) where
  block := block_listed separates some_ fun item member => (each item member).block
  reads := fun {setting start stop} stands follows => by
    obtain ⟨item, rest, rfl⟩ := List.exists_cons_of_ne_nil some_
    obtain ⟨value, others, middle, same, reads, readsMore⟩ := reads_listed separates
      List.mem_cons_self each stands (List.mem_cons_of_mem _ follows)
    exact ⟨value :: others, same,
      reads_separated more reads readsMore fun bar => apart (bar ▸ follows)⟩

end

section

open Program Grammar

variable {setting : Setting} {start stop : Nat} {pieces more : List Piece} {shape other : Shape}

theorem plainAt_of_operand (stands : setting.Stands pieces start stop)
    (block : Block operandHeads operandLasts pieces) : setting.PlainAt start := by
  have plain : ∀ kind ∈ operandHeads,
      kind ∉ Op.starters (Op.unaryAdding ++ Op.highestUnary) := by decide
  exact plain _ (stands.kind_mem block)

/-- What stands behind an expression or a choice ends it at every level. -/
theorem endsAt_of_follow (follows : setting.buffer.kind stop ∈ .pipe :: printedFollow) :
    setting.EndsAt stop ∧ setting.buffer.kind stop ∉ stepStarters ∧
      setting.buffer.kind stop ≠ .dotDot := by
  have ends : ∀ kind ∈ .pipe :: printedFollow, kind ∉ Op.starters Op.joining ∧
      kind ∉ stepStarters ∧ kind ≠ .dotDot := by decide
  exact ends _ follows

theorem PrimaryPieces.reads_whole (primary : PrimaryPieces pieces shape)
    (stands : setting.Stands pieces start stop)
    (follows : setting.buffer.kind stop ∈ .pipe :: printedFollow) :
    ∃ tree, tree.shape = shape ∧ Reads setting (expr .expression) start (.done tree stop) := by
  obtain ⟨ends, name, _⟩ := endsAt_of_follow follows
  obtain ⟨tree, same, reads⟩ := primary.reads stands name
  exact ⟨tree, same, reads_expression_of_primary (plainAt_of_operand stands primary.block) reads ends⟩

theorem PrimaryPieces.expression (primary : PrimaryPieces pieces shape) :
    ExprPieces printedFollow pieces shape where
  block := primary.block.mono (by decide) (by decide)
  reads := fun stands follows => primary.reads_whole stands (List.mem_cons_of_mem _ follows)

/-- Parentheses make an operand of an expression and leave no node. -/
theorem ExprPieces.parenthesized {follow : List Kind} (inner : ExprPieces follow pieces shape)
    (known : .closeParen ∈ follow) : PrimaryPieces (Piece.parenthesized pieces) shape where
  block := inner.block.parenthesized.mono (by decide) (by decide)
  reads := fun {setting start _} stands _ => by
    obtain ⟨last, opened, standsInner, closed, rfl⟩ := stands.parenthesized
    obtain ⟨tree, same, reads⟩ := inner.reads standsInner (closed ▸ known)
    have starts := standsInner.kind_mem inner.block
    -- A conditional expression is tried first; what is printed bare does not start like one.
    have conditional : ∀ kind ∈ printedHeads, kind ∉ ExprRule.conditional.starters := by decide
    have content := reads_orElse (ExprRule.failsAt_of_start _ (conditional _ starts)) reads
    exact ⟨tree, same, reads_primary_of_parenthesized opened
      (.call (reads_enclosed opened content closed))⟩

end

end AdaExpressions
