import AdaExpressions.Expr.Basic

/-!
# Printing an expression

An expression is printed as pieces, each a token of known kind or a space. A compound operand is put
into parentheses, which leave no node when the text is read again; conditional expressions always
stand in their own.
-/

namespace AdaExpressions

/-- A token to be written, or one space. -/
inductive Piece
  | token (kind : Kind) (text : String)
  | space
  deriving DecidableEq, Repr

namespace Piece

def text : Piece → String
  | .token _ text => text
  | .space => " "

/-- A delimiter or reserved word in its spelling. -/
def word (kind : Kind) : Piece :=
  .token kind kind.spelling

/-- Pieces between parentheses. -/
def parenthesized (pieces : List Piece) : List Piece :=
  .word .openParen :: pieces ++ [.word .closeParen]

/-- A word between two spaces. -/
def spaced (kind : Kind) : List Piece :=
  [.space, .word kind, .space]

end Piece

namespace Op

/-- The words of an operator with spaces between them. -/
def pieces (op : Op) : List Piece :=
  (op.words.map Piece.word).intersperse .space

/-- A unary operator that is a word is set apart from its operand. -/
def unaryPieces (op : Op) : List Piece :=
  match op with
  | .abs | .not => op.pieces ++ [.space]
  | _ => op.pieces

def binaryPieces (op : Op) : List Piece :=
  .space :: op.pieces ++ [.space]

end Op

/-- A simple name as a token of the kind that names of its form have. -/
def Ident.piece (ident : Ident) : Piece :=
  .token (if ident.form = .operatorSymbol then .string else .identifier) ident.token.text

/-- A literal as a token of the kind that literals of its form have. -/
def LiteralForm.piece (form : LiteralForm) (token : Token) : Piece :=
  match form with
  | .character => .token .char token.text
  | .number => .token .number token.text
  | .null => .token .kwNull token.text
  | .designator => .token token.kind token.text

/-- Operators, membership tests and raise expressions are compound; a range is not. -/
def Expr.isCompound : Expr → Bool
  | .binary _ op _ _ => op != .range
  | .unary _ _ _ => true
  | .membership _ _ _ _ => true
  | .raise _ _ _ => true
  | _ => false

/-- The pieces of an operand: in parentheses if it is compound. -/
def Expr.operandPieces (expr : Expr) (pieces : List Piece) : List Piece :=
  if expr.isCompound then Piece.parenthesized pieces else pieces

def Name.pieces : Name → List Piece
  | .simple ident => [ident.piece]
  | .selected base selector _ => base.pieces ++ [.word .dot, selector.piece]

mutual

def Expr.pieces : Expr → List Piece
  | .unary op operand _ => op.unaryPieces ++ operand.operandPieces operand.pieces
  | .binary left op right _ =>
      left.operandPieces left.pieces ++ op.binaryPieces ++ right.operandPieces right.pieces
  | .membership tested op choices _ =>
      tested.operandPieces tested.pieces ++ op.binaryPieces ++ Choice.listPieces choices
  | .aggregate ancestor content _ =>
      Piece.parenthesized <|
        (match ancestor with
          | none => []
          | some ancestor => ancestor.pieces ++ Piece.spaced .kwWith) ++ content.pieces
  | .call callee suffix _ => callee.pieces ++ .space :: suffix.pieces
  | .dereference _ => [.word .kwAll]
  | .box _ => [.word .diamond]
  | .ifExpr condition consequence elsifs alternative _ =>
      Piece.parenthesized <|
        .word .kwIf :: .space :: condition.pieces ++ Piece.spaced .kwThen ++
          consequence.pieces ++ ElsifPart.listPieces elsifs ++
          match alternative with
          | none => []
          | some alternative => Piece.spaced .kwElse ++ alternative.pieces
  | .caseExpr subject alternatives _ =>
      Piece.parenthesized <|
        .word .kwCase :: .space :: subject.pieces ++ [.space, .word .kwIs] ++
          CaseAlternative.listPieces alternatives
  | .quantified quantifier loop body _ =>
      Piece.parenthesized <|
        .word .kwFor :: .space :: .word quantifier.word :: .space :: loop.pieces ++
          Piece.spaced .arrow ++ body.pieces
  | .allocator subpool designated _ =>
      .word .kwNew :: .space ::
        (match subpool with
          | none => []
          | some subpool => Piece.parenthesized subpool.pieces ++ [.space]) ++ designated.pieces
  | .qualified mark operand _ =>
      mark.pieces ++ .word .tick ::
        match operand with
        | .aggregate _ _ _ => operand.pieces
        | _ => Piece.parenthesized operand.pieces
  | .attributeRef base designator arguments _ =>
      base.pieces ++ .word .tick :: designator.pieces ++
        match arguments with
        | none => []
        | some suffix => .space :: suffix.pieces
  | .raise exception message _ =>
      .word .kwRaise ::
        (match exception with
          | none => []
          | some exception => .space :: exception.pieces) ++
        match message with
        | none => []
        | some message => Piece.spaced .kwWith ++ message.pieces
  | .selection base selector _ => base.pieces ++ .word .dot :: selector.pieces
  | .name path => path.pieces
  | .literal form token => [form.piece token]

def Choice.pieces : Choice → List Piece
  | .expr inner => inner.operandPieces inner.pieces
  | .others _ => [.word .kwOthers]

/-- Choices with bars between them. -/
def Choice.listPieces : List Choice → List Piece
  | [] => []
  | [choice] => choice.pieces
  | choice :: next :: more =>
      choice.pieces ++ Piece.spaced .pipe ++ Choice.listPieces (next :: more)

def AggregateContent.pieces : AggregateContent → List Piece
  | .fields associations _ => Association.listPieces associations
  | .nullRecord _ => [.word .kwNull, .space, .word .kwRecord]

def Association.pieces : Association → List Piece
  | .mk none value _ => value.pieces
  | .mk (some designator) value _ => designator.pieces ++ Piece.spaced .arrow ++ value.pieces

/-- Associations with commas between them. -/
def Association.listPieces : List Association → List Piece
  | [] => []
  | [association] => association.pieces
  | association :: next :: more =>
      association.pieces ++ .word .comma :: .space :: Association.listPieces (next :: more)

def Designator.pieces : Designator → List Piece
  | .name ident => [ident.piece]
  | .others _ => [.word .kwOthers]
  | .choices list _ => Choice.listPieces list

def CallSuffix.pieces : CallSuffix → List Piece
  | .range bounds => Piece.parenthesized bounds.pieces
  | .parameters associations _ => Piece.parenthesized (Association.listPieces associations)

def ElsifPart.pieces : ElsifPart → List Piece
  | .mk condition consequence _ =>
      Piece.spaced .kwElsif ++ condition.pieces ++ Piece.spaced .kwThen ++ consequence.pieces

def ElsifPart.listPieces : List ElsifPart → List Piece
  | [] => []
  | part :: more => part.pieces ++ ElsifPart.listPieces more

def CaseAlternative.pieces : CaseAlternative → List Piece
  | .mk choices value _ =>
      Piece.spaced .kwWhen ++ Choice.listPieces choices ++ Piece.spaced .arrow ++ value.pieces

/-- Alternatives with commas between them. -/
def CaseAlternative.listPieces : List CaseAlternative → List Piece
  | [] => []
  | [alternative] => alternative.pieces
  | alternative :: next :: more =>
      alternative.pieces ++ .word .comma :: CaseAlternative.listPieces (next :: more)

def LoopSpec.pieces : LoopSpec → List Piece
  | .mk parameter iteration reversed source _ =>
      [parameter.piece] ++ Piece.spaced iteration.word ++
        (if reversed then [.word .kwReverse, .space] else []) ++ source.pieces

def IterationSource.pieces : IterationSource → List Piece
  | .constrained mark constraint _ =>
      mark.pieces ++ Piece.spaced .kwRange ++ constraint.pieces
  | .expr inner => inner.pieces

end

/-- The expression as source text. -/
def Expr.sourceText (expr : Expr) : String :=
  String.join (expr.pieces.map Piece.text)

end AdaExpressions
