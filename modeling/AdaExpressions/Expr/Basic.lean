import AdaExpressions.Name.Basic
import AdaExpressions.Operator

/-!
# Expressions

The tree of an expression. Parentheses leave no node; every node keeps the span of source it was
read from. Calls, indexed components, slices and conversions are all calls: telling them apart needs
the meaning of the name. A selection of a simple name out of a name is itself a name, any other
selection a node of its own.
-/

namespace AdaExpressions

inductive LiteralForm
  | character
  | number
  | null
  /-- An attribute designator that is a reserved word. -/
  | designator
  deriving DecidableEq, Inhabited, Repr

inductive Quantifier
  | universal
  | existential
  deriving DecidableEq, Inhabited, Repr

/-- Whether an iteration runs over the values of a range or over the elements of a collection. -/
inductive Iteration
  | values
  | elements
  deriving DecidableEq, Inhabited, Repr

namespace Quantifier

def word : Quantifier → Kind
  | .universal => .kwAll
  | .existential => .kwSome

end Quantifier

namespace Iteration

def word : Iteration → Kind
  | .values => .kwIn
  | .elements => .kwOf

/-- What an iteration runs over and, if so, that it runs backwards. -/
def phrase (iteration : Iteration) (reversed : Bool) : String :=
  iteration.word.spelling ++ if reversed then " reverse" else ""

end Iteration

mutual

inductive Expr
  | unary (op : Op) (operand : Expr) (span : Span)
  /-- Ranges are among the binary expressions. -/
  | binary (left : Expr) (op : Op) (right : Expr) (span : Span)
  | membership (tested : Expr) (op : Op) (choices : List Choice) (span : Span)
  | aggregate (ancestor : Option Expr) (content : AggregateContent) (span : Span)
  | call (callee : Expr) (suffix : CallSuffix) (span : Span)
  /-- The word `all`, which selects what an access value designates. -/
  | dereference (span : Span)
  /-- The box `<>`, which stands for a default. -/
  | box (span : Span)
  | ifExpr (condition consequence : Expr) (elsifs : List ElsifPart) (alternative : Option Expr)
      (span : Span)
  | caseExpr (subject : Expr) (alternatives : List CaseAlternative) (span : Span)
  | quantified (quantifier : Quantifier) (loop : LoopSpec) (body : Expr) (span : Span)
  | allocator (subpool : Option Expr) (designated : Expr) (span : Span)
  | qualified (mark : Expr) (operand : Expr) (span : Span)
  | attributeRef (base : Expr) (designator : Expr) (arguments : Option CallSuffix) (span : Span)
  | raise (exception : Option Expr) (message : Option Expr) (span : Span)
  | selection (base : Expr) (selector : Expr) (span : Span)
  | name (path : Name)
  | literal (form : LiteralForm) (token : Token)

/-- One of the alternatives that bars separate. -/
inductive Choice
  | expr (inner : Expr)
  | others (span : Span)

inductive AggregateContent
  | fields (associations : List Association) (span : Span)
  | nullRecord (span : Span)

/-- A value, perhaps with what it is associated with. -/
inductive Association
  | mk (designator : Option Designator) (value : Expr) (span : Span)

/-- The part of an association before the arrow. -/
inductive Designator
  | name (ident : Ident)
  | others (span : Span)
  | choices (list : List Choice) (span : Span)

/-- What stands between the parentheses after a name. -/
inductive CallSuffix
  | range (bounds : Expr)
  | parameters (associations : List Association) (span : Span)

inductive ElsifPart
  | mk (condition consequence : Expr) (span : Span)

inductive CaseAlternative
  | mk (choices : List Choice) (value : Expr) (span : Span)

inductive LoopSpec
  | mk (parameter : Ident) (iteration : Iteration) (reversed : Bool) (source : IterationSource)
      (span : Span)

inductive IterationSource
  /-- A subtype with a range constraint. -/
  | constrained (mark constraint : Expr) (span : Span)
  | expr (inner : Expr)

end

namespace Expr

def span : Expr → Span
  | .unary _ _ span => span
  | .binary _ _ _ span => span
  | .membership _ _ _ span => span
  | .aggregate _ _ span => span
  | .call _ _ span => span
  | .dereference span => span
  | .box span => span
  | .ifExpr _ _ _ _ span => span
  | .caseExpr _ _ span => span
  | .quantified _ _ _ span => span
  | .allocator _ _ span => span
  | .qualified _ _ span => span
  | .attributeRef _ _ _ span => span
  | .raise _ _ span => span
  | .selection _ _ span => span
  | .name path => path.span
  | .literal _ token => token.span

/-- Whether the expression is a range between two bounds. -/
def isRange : Expr → Bool
  | .binary _ .range _ _ => true
  | _ => false

def asName? : Expr → Option Name
  | .name path => some path
  | _ => none

/-- The kind of node, as reports on a tree call it. -/
def typeName : Expr → String
  | .unary _ _ _ => "UnOp"
  | .binary _ _ _ _ => "BinOp"
  | .membership _ _ _ _ => "MembershipExpr"
  | .aggregate _ _ _ => "Aggregate"
  | .call _ _ _ => "CallExpr"
  | .dereference _ => "AccessDeref"
  | .box _ => "DiamondExpr"
  | .ifExpr _ _ _ _ _ => "IfExpr"
  | .caseExpr _ _ _ => "CaseExpr"
  | .quantified _ _ _ _ => "QuantifiedExpr"
  | .allocator _ _ _ => "Allocator"
  | .qualified _ _ _ => "QualExpr"
  | .attributeRef _ _ _ _ => "AttributeRef"
  | .raise _ _ _ => "RaiseExpression"
  | .selection _ _ _ => "Prefix"
  | .name (.selected _ _ _) => "NamePrefix"
  | .name (.simple ident) => match ident.form with
    | .identifier => "Identifier"
    | .operatorSymbol => "StringLiteral"
    | .enumeration => "EnumIdentifier"
  | .literal form _ => match form with
    | .character => "CharLiteral"
    | .number => "NumLiteral"
    | .null => "NullLiteral"
    | .designator => "Attribute"

/-! ### Nodes whose span comes from their parts -/

/-- `opSpan` is the span of the operator's words. -/
def ofUnary (op : Op) (opSpan : Span) (operand : Expr) : Expr :=
  .unary op operand (opSpan.join operand.span)

def ofBinary (left : Expr) (op : Op) (right : Expr) : Expr :=
  .binary left op right (left.span.join right.span)

/-- Selecting an identifier or operator symbol out of a name gives a name. -/
def select (base selector : Expr) : Expr :=
  match base, selector with
  | .name path, .name (.simple ident) =>
      if ident.form = .enumeration then .selection base selector (base.span.join selector.span)
      else .name (path.select ident)
  | _, _ => .selection base selector (base.span.join selector.span)

end Expr

namespace Choice

def span : Choice → Span
  | .expr inner => inner.span
  | .others span => span

end Choice

namespace Designator

def span : Designator → Span
  | .name ident => ident.token.span
  | .others span => span
  | .choices _ span => span

/-- The designator that a choice list makes: `others` alone is not a list. -/
def ofChoices (choices : List Choice) (span : Span) : Designator :=
  match choices with
  | [.others othersSpan] => .others othersSpan
  | _ => .choices choices span

end Designator

namespace Association

def span : Association → Span
  | .mk _ _ span => span

def value : Association → Expr
  | .mk _ value _ => value

def designator : Association → Option Designator
  | .mk designator _ _ => designator

/-- An association spans its designator, if it has one, and its value. -/
def of (designator : Option Designator) (value : Expr) : Association :=
  .mk designator value <| match designator with
    | some designator => designator.span.join value.span
    | none => value.span

end Association

namespace CallSuffix

def span : CallSuffix → Span
  | .range bounds => bounds.span
  | .parameters _ span => span

end CallSuffix

namespace CaseAlternative

def span : CaseAlternative → Span
  | .mk _ _ span => span

end CaseAlternative

namespace IterationSource

def span : IterationSource → Span
  | .constrained _ _ span => span
  | .expr inner => inner.span

end IterationSource

namespace LoopSpec

def span : LoopSpec → Span
  | .mk _ _ _ _ span => span

end LoopSpec

end AdaExpressions
