import AdaExpressions.Expr.Basic
import AdaExpressions.Proofs.Token.TokenText

/-!
# Formed trees

`Formed form tree` says that a tree is put together the way the rules put trees together: what stands
where, which lists have items, which operators join what. It does not tell a tree from one with other
parentheses, so an operand of any operator may be any expression.
-/

namespace AdaExpressions

open Lexeme (TokenText)

/-- The token has a text of its kind. -/
def Token.Proper (token : Token) : Prop :=
  TokenText token.kind token.text.toList

/-- What stands for a simple name: a proper token of the kind that the form asks for. -/
def Ident.Proper (ident : Ident) : Prop :=
  ident.form ≠ .enumeration ∧ ident.token.Proper ∧
    ident.token.kind = if ident.form = .operatorSymbol then .string else .identifier

/-- An attribute without arguments, which a call cannot be made of. -/
def Expr.isBareAttribute : Expr → Bool
  | .attributeRef _ _ none _ => true
  | _ => false

/-- A simple name as a tree. -/
def Expr.isIdent : Expr → Bool
  | .name (.simple _) => true
  | _ => false

namespace Op

/-- The operators with one operand. -/
def unary : List Op :=
  unaryAdding ++ highestUnary

/-- The operators that join two expressions into a third; a range is none. -/
def binary : List Op :=
  logical ++ relational ++ adding ++ multiplying ++ exponent

end Op

/-- The forms of trees that are expressions. -/
inductive ExprForm
  | expression
  | name
  /-- What a name starts with, and what is selected out of one. -/
  | direct
  | attribute
  | range
  /-- A range or an expression. -/
  | scope
  /-- An expression or a box. -/
  | value
  deriving DecidableEq, Repr

inductive TreeForm
  | expr (form : ExprForm)
  | choice
  | parameter
  | suffix
  | association
  | content
  | elsif
  | alternative
  | loop
  | source
  deriving DecidableEq, Repr

abbrev TreeForm.Node : TreeForm → Type
  | .expr _ => Expr
  | .choice => Choice
  | .parameter => Association
  | .suffix => CallSuffix
  | .association => Association
  | .content => AggregateContent
  | .elsif => ElsifPart
  | .alternative => CaseAlternative
  | .loop => LoopSpec
  | .source => IterationSource

inductive Formed : (form : TreeForm) → form.Node → Prop
  | unary {op : Op} {operand : Expr} {span : Span} :
      op ∈ Op.unary → Formed (.expr .expression) operand →
      Formed (.expr .expression) (.unary op operand span)
  | binary {left right : Expr} {op : Op} {span : Span} :
      op ∈ Op.binary →
      Formed (.expr .expression) left → Formed (.expr .expression) right →
      Formed (.expr .expression) (.binary left op right span)
  | membership {tested : Expr} {op : Op} {choices : List Choice} {span : Span} :
      op ∈ Op.membership → Formed (.expr .expression) tested → choices ≠ [] →
      (∀ choice ∈ choices, Formed .choice choice) →
      Formed (.expr .expression) (.membership tested op choices span)
  | number {token : Token} :
      token.kind = .number → token.Proper → Formed (.expr .expression) (.literal .number token)
  | null {token : Token} :
      token.kind = .kwNull → token.Proper → Formed (.expr .expression) (.literal .null token)
  | name {expr : Expr} : Formed (.expr .name) expr → Formed (.expr .expression) expr
  | new {designated : Expr} {span : Span} :
      Formed (.expr .name) designated → Formed (.expr .expression) (.allocator none designated span)
  | newIn {subpool designated : Expr} {span : Span} :
      Formed (.expr .name) subpool → Formed (.expr .name) designated →
      Formed (.expr .expression) (.allocator (some subpool) designated span)
  | reraise {span : Span} :
      Formed (.expr .expression) (.raise none none span)
  | raiseName {exception : Expr} {span : Span} :
      Formed (.expr .name) exception →
      Formed (.expr .expression) (.raise (some exception) none span)
  | raiseMessage {exception message : Expr} {span : Span} :
      Formed (.expr .name) exception → Formed (.expr .expression) message →
      Formed (.expr .expression) (.raise (some exception) (some message) span)
  | aggregate {content : AggregateContent} {span : Span} :
      Formed .content content → Formed (.expr .expression) (.aggregate none content span)
  | extension {ancestor : Expr} {content : AggregateContent} {span : Span} :
      Formed (.expr .expression) ancestor → Formed .content content →
      Formed (.expr .expression) (.aggregate (some ancestor) content span)
  | ifExpr {condition consequence : Expr} {elsifs : List ElsifPart} {alternative : Option Expr}
      {span : Span} :
      Formed (.expr .expression) condition → Formed (.expr .expression) consequence →
      (∀ part ∈ elsifs, Formed .elsif part) →
      (∀ expr ∈ alternative, Formed (.expr .expression) expr) →
      Formed (.expr .expression) (.ifExpr condition consequence elsifs alternative span)
  | caseExpr {subject : Expr} {alternatives : List CaseAlternative} {span : Span} :
      Formed (.expr .expression) subject → alternatives ≠ [] →
      (∀ part ∈ alternatives, Formed .alternative part) →
      Formed (.expr .expression) (.caseExpr subject alternatives span)
  | quantified {quantifier : Quantifier} {loop : LoopSpec} {body : Expr} {span : Span} :
      Formed .loop loop → Formed (.expr .scope) body →
      Formed (.expr .expression) (.quantified quantifier loop body span)
  -- Names.
  | direct {expr : Expr} : Formed (.expr .direct) expr → Formed (.expr .name) expr
  | ident {ident : Ident} : ident.Proper → Formed (.expr .direct) (.name (.simple ident))
  | character {token : Token} :
      token.kind = .char → token.Proper → Formed (.expr .direct) (.literal .character token)
  | dereference {span : Span} : Formed (.expr .direct) (.dereference span)
  | attributeWord {token : Token} :
      token.kind ∈ [.kwAccess, .kwDelta, .kwDigits, .kwMod, .kwRange] → token.Proper →
      Formed (.expr .direct) (.literal .designator token)
  | selected {base : Name} {selector : Ident} {span : Span} :
      Formed (.expr .name) (.name base) → selector.Proper →
      Formed (.expr .name) (.name (.selected base selector span))
  | selection {base selector : Expr} {span : Span} :
      Formed (.expr .name) base → Formed (.expr .direct) selector →
      (base.asName?.isSome = true → selector.isIdent = false) →
      Formed (.expr .name) (.selection base selector span)
  | call {callee : Expr} {suffix : CallSuffix} {span : Span} :
      Formed (.expr .name) callee → callee.isBareAttribute = false → Formed .suffix suffix →
      Formed (.expr .name) (.call callee suffix span)
  | attributeRef {base designator : Expr} {span : Span} :
      Formed (.expr .name) base → Formed (.expr .attribute) designator →
      Formed (.expr .name) (.attributeRef base designator none span)
  | attributeCall {base designator : Expr} {arguments : CallSuffix} {span : Span} :
      Formed (.expr .name) base → Formed (.expr .attribute) designator →
      Formed .suffix arguments →
      Formed (.expr .name) (.attributeRef base designator (some arguments) span)
  | qualified {mark operand : Expr} {span : Span} :
      Formed (.expr .name) mark → Formed (.expr .expression) operand →
      Formed (.expr .name) (.qualified mark operand span)
  | namedAttribute {token : Token} :
      token.kind = .identifier → token.Proper →
      Formed (.expr .attribute) (.name (.simple ⟨.identifier, token⟩))
  | reservedAttribute {token : Token} :
      token.kind ∈ [.kwAccess, .kwDelta, .kwDigits, .kwMod, .kwRange] → token.Proper →
      Formed (.expr .attribute) (.literal .designator token)
  -- Parameters, choices and aggregates.
  | range {low high : Expr} {span : Span} :
      Formed (.expr .expression) low → Formed (.expr .expression) high →
      Formed (.expr .range) (.binary low .range high span)
  | rangeScope {bounds : Expr} : Formed (.expr .range) bounds → Formed (.expr .scope) bounds
  | exprScope {expr : Expr} : Formed (.expr .expression) expr → Formed (.expr .scope) expr
  | value {expr : Expr} : Formed (.expr .expression) expr → Formed (.expr .value) expr
  | box {span : Span} : Formed (.expr .value) (.box span)
  | choice {expr : Expr} : Formed (.expr .scope) expr → Formed .choice (.expr expr)
  | others {span : Span} : Formed .choice (.others span)
  | slice {bounds : Expr} : Formed (.expr .range) bounds → Formed .suffix (.range bounds)
  | parameters {parts : List Association} {span : Span} :
      parts ≠ [] → (∀ part ∈ parts, Formed .parameter part) →
      Formed .suffix (.parameters parts span)
  | positional {value : Expr} {span : Span} :
      Formed (.expr .value) value → Formed .parameter (.mk none value span)
  | named {ident : Ident} {value : Expr} {span : Span} :
      ident.Proper → Formed (.expr .value) value →
      Formed .parameter (.mk (some (.name ident)) value span)
  | otherParameters {value : Expr} {span othersSpan : Span} :
      Formed (.expr .value) value →
      Formed .parameter (.mk (some (.others othersSpan)) value span)
  | nullRecord {span : Span} : Formed .content (.nullRecord span)
  | fields {parts : List Association} {span : Span} :
      parts ≠ [] → (∀ part ∈ parts, Formed .association part) →
      Formed .content (.fields parts span)
  | component {value : Expr} {span : Span} :
      Formed (.expr .value) value → Formed .association (.mk none value span)
  | otherComponents {value : Expr} {span othersSpan : Span} :
      Formed (.expr .value) value →
      Formed .association (.mk (some (.others othersSpan)) value span)
  | chosen {choices : List Choice} {value : Expr} {span choicesSpan : Span} :
      choices ≠ [] → (∀ choice ∈ choices, Formed .choice choice) →
      (∀ othersSpan, choices ≠ [.others othersSpan]) → Formed (.expr .value) value →
      Formed .association (.mk (some (.choices choices choicesSpan)) value span)
  -- Parts of conditional expressions.
  | elsif {condition consequence : Expr} {span : Span} :
      Formed (.expr .expression) condition → Formed (.expr .expression) consequence →
      Formed .elsif (.mk condition consequence span)
  | alternative {choices : List Choice} {value : Expr} {span : Span} :
      choices ≠ [] → (∀ choice ∈ choices, Formed .choice choice) →
      Formed (.expr .expression) value → Formed .alternative (.mk choices value span)
  | loop {token : Token} {iteration : Iteration} {reversed : Bool} {source : IterationSource}
      {span : Span} :
      token.kind = .identifier → token.Proper → Formed .source source →
      Formed .loop (.mk ⟨.identifier, token⟩ iteration reversed source span)
  | constrained {mark constraint : Expr} {span : Span} :
      Formed (.expr .name) mark → Formed (.expr .range) constraint →
      Formed .source (.constrained mark constraint span)
  | iterated {source : Expr} : Formed (.expr .scope) source → Formed .source (.expr source)

theorem Formed.of_attribute {expr : Expr}
    (formed : Formed (.expr .attribute) expr) : Formed (.expr .direct) expr := by
  cases formed with
  | namedAttribute found proper => exact .ident ⟨nofun, proper, found⟩
  | reservedAttribute known proper => exact .attributeWord known proper

end AdaExpressions
