import AdaExpressions.Parser.Basic
import AdaExpressions.Proofs.Printing.Conditionals

/-!
# Printing operator trees

An operator tree is put together from names, numbers and `null` by operators, membership tests and if
expressions. Its operands can be any operator trees, also where the grammar asks for parentheses, so
no text need have been read as such a tree. What is printed for it is read back as a tree of its
shape whatever the options are.

Result: `parse_sourceText_of_operatorTree`.
-/

namespace AdaExpressions

open Lexeme (TokenText)

/-- The parts of operator trees: trees, the choices of a membership test and elsif parts. -/
inductive OperatorForm
  | tree
  | choice
  | elsif
  deriving DecidableEq, Repr

abbrev OperatorForm.Node : OperatorForm → Type
  | .tree => Expr
  | .choice => Choice
  | .elsif => ElsifPart

inductive OperatorTree : (form : OperatorForm) → form.Node → Prop
  | identifier {token : Token} : Kind.identifier.Covers token.text →
      OperatorTree .tree (.name (.simple ⟨.identifier, token⟩))
  | number {token : Token} : Kind.number.Covers token.text →
      OperatorTree .tree (.literal .number token)
  | null {token : Token} : Kind.kwNull.Covers token.text → OperatorTree .tree (.literal .null token)
  | unary {op : Op} {operand : Expr} {span : Span} : op ∈ Op.unary → OperatorTree .tree operand →
      OperatorTree .tree (.unary op operand span)
  | binary {left right : Expr} {op : Op} {span : Span} : op ∈ Op.binary →
      OperatorTree .tree left → OperatorTree .tree right →
      OperatorTree .tree (.binary left op right span)
  | membership {tested : Expr} {op : Op} {choices : List Choice} {span : Span} :
      op ∈ Op.membership → OperatorTree .tree tested → choices ≠ [] →
      (∀ choice ∈ choices, OperatorTree .choice choice) →
      OperatorTree .tree (.membership tested op choices span)
  | ifExpr {condition consequence : Expr} {elsifs : List ElsifPart} {alternative : Option Expr}
      {span : Span} :
      OperatorTree .tree condition → OperatorTree .tree consequence →
      (∀ part ∈ elsifs, OperatorTree .elsif part) →
      (∀ expr ∈ alternative, OperatorTree .tree expr) →
      OperatorTree .tree (.ifExpr condition consequence elsifs alternative span)
  -- Choices.
  | choice {inner : Expr} : OperatorTree .tree inner → OperatorTree .choice (.expr inner)
  | range {low high : Expr} {span : Span} : OperatorTree .tree low → OperatorTree .tree high →
      OperatorTree .choice (.expr (.binary low .range high span))
  | others {span : Span} : OperatorTree .choice (.others span)
  -- Elsif parts.
  | elsif {condition consequence : Expr} {span : Span} :
      OperatorTree .tree condition → OperatorTree .tree consequence →
      OperatorTree .elsif (.mk condition consequence span)

/-- What is printed for the tree is read back, as an expression and as an operand. -/
structure Expr.IsRead (tree : Expr) : Prop where
  whole : ExprPieces raiseFollow tree.pieces tree.shape
  operand : PrimaryPieces (tree.operandPieces tree.pieces) tree.shape

/-- What is printed for the part is read back. -/
def OperatorForm.IsRead : (form : OperatorForm) → form.Node → Prop
  | .tree, node => Expr.IsRead node
  | .choice, node => ChoicePieces (Choice.pieces node) (Choice.shape node)
  | .elsif, node => ElsifPart.IsRead node

namespace Expr

variable {tree : Expr}

theorem isRead_of_primary (simple : tree.isCompound = false)
    (primary : PrimaryPieces tree.pieces tree.shape) : tree.IsRead where
  whole := primary.expression.mono (List.Subset.refl _) (List.Subset.refl _) (by decide)
  operand := by simpa [operandPieces, simple] using primary

theorem isRead_of_compound (compound : tree.isCompound = true)
    (whole : ExprPieces printedFollow tree.pieces tree.shape) : tree.IsRead where
  whole := whole.mono (List.Subset.refl _) (List.Subset.refl _) (by decide)
  operand := by simpa [operandPieces, compound] using whole.parenthesized (by decide)

theorem pieces_ifExpr {condition consequence : Expr} {elsifs : List ElsifPart}
    {alternative : Option Expr} {span : Span} :
    (ifExpr condition consequence elsifs alternative span).pieces =
      Piece.parenthesized (.word .kwIf :: .space :: condition.pieces ++ Piece.spaced .kwThen ++
        consequence.pieces ++ ElsifPart.listPieces elsifs ++ elsePieces alternative) := by
  cases alternative <;> simp [pieces, elsePieces]

end Expr

/-- No binary operator is a range, so that a tree with one is compound. -/
theorem Op.ne_range_of_binary : ∀ op ∈ Op.binary, (op != .range) = true := by
  decide

theorem OperatorTree.isRead {form : OperatorForm} {node : form.Node}
    (tree : OperatorTree form node) : form.IsRead node := by
  -- A compound tree is an operand in parentheses only; the other trees are operands as they stand.
  induction tree with
  | @identifier token covers =>
      have name : DirectPieces _ _ :=
        .ident (show (⟨.identifier, token⟩ : Ident).form ≠ .enumeration from nofun)
          (Kind.covers_iff.mp covers)
      exact Expr.isRead_of_primary rfl name.name.primary
  | number covers =>
      refine Expr.isRead_of_primary rfl ?_
      simpa [Expr.pieces, LiteralForm.piece, Expr.shape, LiteralForm.shape] using
        PrimaryPieces.number (Kind.covers_iff.mp covers)
  | null covers =>
      refine Expr.isRead_of_primary rfl ?_
      simpa [Expr.pieces, LiteralForm.piece, Expr.shape, LiteralForm.shape] using
        PrimaryPieces.null (Kind.covers_iff.mp covers)
  | unary known _ operand =>
      refine Expr.isRead_of_compound rfl ?_
      simpa [Expr.pieces, Expr.shape] using operand.operand.unary known
  | binary known _ _ left right =>
      refine Expr.isRead_of_compound (Op.ne_range_of_binary _ known) ?_
      simpa [Expr.pieces, Expr.shape] using left.operand.binary known right.operand
  | membership known _ some_ _ tested choices =>
      refine Expr.isRead_of_compound rfl ?_
      simpa [Expr.pieces, Expr.shape] using tested.operand.membership known some_ choices
  | ifExpr _ _ _ _ condition consequence elsifs alternative =>
      refine Expr.isRead_of_primary rfl ?_
      rw [Expr.pieces_ifExpr, Expr.shape]
      exact .ifExpr condition.whole consequence.whole elsifs fun expr member =>
        (alternative expr member).whole
  | choice _ inner =>
      simpa [OperatorForm.IsRead, Choice.pieces, Choice.shape] using inner.operand.choice
  | range _ _ low high =>
      simpa [OperatorForm.IsRead, Choice.pieces, Choice.shape, Expr.operandPieces, Expr.isCompound,
        Expr.pieces, Expr.shape] using (low.operand.range high.operand).choice_of_range
  | others =>
      simpa [OperatorForm.IsRead, Choice.pieces, Choice.shape] using ChoicePieces.others
  | elsif _ _ condition consequence => exact ⟨condition.whole, consequence.whole⟩

/-- An expression that is read back from what is printed for it is accepted when its text is parsed. -/
theorem ReadBack.parse_sourceText {expr : Expr}
    (whole : ExprPieces raiseFollow expr.pieces expr.shape)
    (faithful : Piece.Faithful none expr.pieces) (file : String) :
    ∃ tokens, tokenize expr.sourceText file = .ok tokens ∧
      ∀ options, ∃ reread, parse tokens file options = .accepted reread ∧
        reread.shapeText = expr.shapeText := by
  obtain ⟨placed, closing, tokenized, closed, same⟩ :=
    Piece.tokenize_source whole.block.proper whole.block.apart faithful expr.toList_sourceText file
  refine ⟨placed ++ [closing], tokenized, fun options => ?_⟩
  let setting := (Parser.ofTokens (placed ++ [closing]) file options).setting
  have textAt : setting.TextAt placed 0 := Setting.textAt_ofTokens closed
  have ends : setting.buffer.kind (0 + placed.length) = .eof := Buffer.kind_ofTokens_closed closed
  obtain ⟨reread, shape, reads⟩ := whole.reads (Setting.stands_of_textAt textAt same)
    (by rw [ends]; decide)
  exact ⟨reread, parse_accepted_iff.mpr ⟨_, reads, ends⟩, congrArg Shape.render shape⟩

/-! ### No apostrophes -/

namespace Piece

/-- The piece is no tick and no character literal. -/
def isPlain : Piece → Bool
  | .token kind _ => kind != .char && kind != .tick
  | .space => true

theorem faithful_of_isPlain {pieces : List Piece} {last : Option Kind}
    (plain : pieces.all isPlain = true) : Faithful last pieces := by
  induction pieces generalizing last with
  | nil => trivial
  | cons piece more ih =>
      obtain ⟨here, behind⟩ := Bool.and_eq_true_iff.mp plain
      cases piece with
      | space => exact ih behind
      | token kind text =>
          obtain ⟨literal, tick⟩ := Bool.and_eq_true_iff.mp here
          exact ⟨(absurd · (by simpa using literal)), (absurd · (by simpa using tick)), ih behind⟩

end Piece

theorem Op.isPlain_pieces (op : Op) : op.unaryPieces.all Piece.isPlain = true ∧
    op.binaryPieces.all Piece.isPlain = true := by
  cases op <;> decide

theorem isPlain_parenthesized (pieces : List Piece) :
    (Piece.parenthesized pieces).all Piece.isPlain = pieces.all Piece.isPlain := by
  rw [Piece.parenthesized, List.all_append, List.all_cons]
  exact Bool.and_true _

theorem Expr.isPlain_operandPieces (tree : Expr) :
    (tree.operandPieces tree.pieces).all Piece.isPlain = tree.pieces.all Piece.isPlain := by
  unfold operandPieces
  split
  · exact isPlain_parenthesized _
  · rfl

theorem Choice.isPlain_listPieces {choices : List Choice}
    (each : ∀ choice ∈ choices, choice.pieces.all Piece.isPlain = true) :
    (Choice.listPieces choices).all Piece.isPlain = true := by
  induction choices with
  | nil => rfl
  | cons choice rest ih =>
      have here := each choice List.mem_cons_self
      have behind := ih fun other member => each other (List.mem_cons_of_mem _ member)
      cases rest with
      | nil => exact here
      | cons next rest =>
          rw [listPieces, List.all_append, List.all_append, here, behind]
          rfl

theorem ElsifPart.isPlain_listPieces {parts : List ElsifPart}
    (each : ∀ part ∈ parts, part.pieces.all Piece.isPlain = true) :
    (ElsifPart.listPieces parts).all Piece.isPlain = true := by
  induction parts with
  | nil => rfl
  | cons part rest ih =>
      rw [listPieces, List.all_append, each part List.mem_cons_self,
        ih fun other member => each other (List.mem_cons_of_mem _ member)]
      rfl

def OperatorForm.pieces : (form : OperatorForm) → form.Node → List Piece
  | .tree => Expr.pieces
  | .choice => Choice.pieces
  | .elsif => ElsifPart.pieces

theorem OperatorTree.isPlain {form : OperatorForm} {node : form.Node} (tree : OperatorTree form node) :
    (form.pieces node).all Piece.isPlain = true := by
  induction tree with
  | identifier | number | null => rfl
  | @unary op operand _ _ _ inner =>
      rw [OperatorForm.pieces, Expr.pieces, List.all_append, op.isPlain_pieces.1,
        operand.isPlain_operandPieces]
      exact inner
  | @binary left right op _ _ _ _ plainLeft plainRight =>
      rw [OperatorForm.pieces, Expr.pieces, List.all_append, List.all_append, op.isPlain_pieces.2,
        left.isPlain_operandPieces, right.isPlain_operandPieces]
      exact Bool.and_eq_true_iff.mpr ⟨Bool.and_eq_true_iff.mpr ⟨plainLeft, rfl⟩, plainRight⟩
  | @membership tested op choices _ _ _ _ _ plainTested each =>
      rw [OperatorForm.pieces, Expr.pieces, List.all_append, List.all_append, op.isPlain_pieces.2,
        tested.isPlain_operandPieces, Choice.isPlain_listPieces each, Bool.and_true, Bool.and_true]
      exact plainTested
  | @ifExpr first second elsifs alternative _ _ _ _ _ condition consequence each plainElse =>
      have else_ : (elsePieces alternative).all Piece.isPlain = true := by
        cases alternative with
        | none => rfl
        | some other => exact plainElse other rfl
      have front : first.pieces.all Piece.isPlain = true := condition
      have back : second.pieces.all Piece.isPlain = true := consequence
      rw [OperatorForm.pieces, Expr.pieces_ifExpr, isPlain_parenthesized]
      simp only [List.all_append, List.all_cons, front, back, ElsifPart.isPlain_listPieces each, else_]
      rfl
  | choice _ inner =>
      rw [OperatorForm.pieces, Choice.pieces, Expr.isPlain_operandPieces]
      exact inner
  | @range low high _ _ _ plainLow plainHigh =>
      rw [OperatorForm.pieces, Choice.pieces, Expr.isPlain_operandPieces, Expr.pieces, List.all_append,
        List.all_append, Op.range.isPlain_pieces.2, low.isPlain_operandPieces,
        high.isPlain_operandPieces]
      exact Bool.and_eq_true_iff.mpr ⟨Bool.and_eq_true_iff.mpr ⟨plainLow, rfl⟩, plainHigh⟩
  | others => rfl
  | @elsif first second _ _ _ condition consequence =>
      have front : first.pieces.all Piece.isPlain = true := condition
      have back : second.pieces.all Piece.isPlain = true := consequence
      rw [OperatorForm.pieces, ElsifPart.pieces]
      simp only [List.all_append, front, back]
      rfl

/-- The text of an operator tree is accepted under any options and read back as a tree of its shape. -/
theorem parse_sourceText_of_operatorTree {expr : Expr} (tree : OperatorTree .tree expr)
    (file : String) :
    ∃ tokens, tokenize expr.sourceText file = .ok tokens ∧
      ∀ options, ∃ reread, parse tokens file options = .accepted reread ∧
        reread.shapeText = expr.shapeText := by
  have plain : expr.pieces.all Piece.isPlain = true := tree.isPlain
  have whole : ExprPieces raiseFollow expr.pieces expr.shape := tree.isRead.whole
  exact whole.parse_sourceText (Piece.faithful_of_isPlain plain) file

/-- A minus before a minus before a membership test, which are read as operands only in parentheses. -/
theorem parse_sourceText_of_operatorTree_nested :
    let name : Expr := .name (.simple ⟨.identifier, ⟨.identifier, "X", default⟩⟩)
    let number : Expr := .literal .number ⟨.number, "1", default⟩
    let choices : List Choice := [.expr (.binary number .range number default), .others default]
    let expr : Expr :=
      .unary .minus (.unary .minus (.membership name .notIn choices default) default) default
    OperatorTree .tree expr ∧ expr.sourceText = "-(-(X not in 1 .. 1 | others))" ∧
      ∃ tokens, tokenize expr.sourceText "" = .ok tokens ∧
        ∀ options, ∃ reread, parse tokens "" options = .accepted reread ∧
          reread.shapeText = expr.shapeText := by
  intro name number choices expr
  have word : TokenText (.ofWord ['X']) ['X'] := .word (by decide) (by simp)
  have digit : TokenText .number ['1'] := .number (by decide)
  have name_ : OperatorTree .tree name := .identifier (Kind.covers_iff.mpr word)
  have number_ : OperatorTree .tree number := .number (Kind.covers_iff.mpr digit)
  have choices_ : ∀ choice ∈ choices, OperatorTree .choice choice := by
    simpa [choices] using And.intro (OperatorTree.range number_ number_) OperatorTree.others
  have tree : OperatorTree .tree expr :=
    .unary (by decide) (.unary (by decide)
      (.membership (by decide) name_ (List.cons_ne_nil _ _) choices_))
  exact ⟨tree, by decide +kernel, parse_sourceText_of_operatorTree tree ""⟩

end AdaExpressions
