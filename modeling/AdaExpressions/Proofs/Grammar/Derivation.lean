import AdaExpressions.Grammar.Association

/-!
# Derivations

The context-free grammar that the rules read, told apart from how they read it: `Derives phrase text
node` says that a list of tokens is a phrase of the grammar and `node` the tree of it. Nothing here
says in which order alternatives are tried or where a phrase ends.

Logical, adding and multiplying chains and names are folded from the left, comparisons from the
right, and parentheses leave no node.
-/

namespace AdaExpressions

open Grammar (associationsSpan)

/-- From the start of the first token to the end of the last. -/
def textSpan : List Token → Span
  | [] => default
  | first :: more => first.span.join ((first :: more).getLast (by simp)).span

/-- The span of the last token. -/
def lastSpan (text : List Token) : Span :=
  (text.getLast?.map Token.span).getD default

/-- The phrases that are expressions. -/
inductive ExprPhrase
  | expression
  | relation
  | simpleExpr
  | unopTerm
  | term
  | factor
  | primary
  | name
  | directName
  | identifier
  /-- An attribute designator that is a reserved word. -/
  | attributeWord
  | attribute
  | staticName
  | enumerationLiteral
  | aggregate
  | discreteRange
  /-- A range, or an expression of any kind. -/
  | rangeOrExpr
  /-- An expression, or a box. -/
  | value
  | conditional
  | ifExpr
  | caseExpr
  | quantified
  | allocator
  | raise
  deriving DecidableEq, Repr

inductive Phrase
  | expr (phrase : ExprPhrase)
  | step
  | staticPart
  | callSuffix
  | parameters
  | parameter
  | parameterDesignator
  | aggregateContent
  | associations
  | association
  | choiceList
  | choice
  /-- A condition, `then` and what follows from it. -/
  | consequence
  | elsifParts
  | elsePart
  | caseAlternatives
  | caseAlternative
  | loopSpec
  | iterationSource
  deriving DecidableEq, Repr

/-- What a phrase stands for. -/
abbrev Phrase.Node : Phrase → Type
  | .expr _ => Expr
  | .step => NameStep
  | .staticPart => Ident
  | .callSuffix => CallSuffix
  | .parameters => List Association
  | .parameter => Association
  | .parameterDesignator => Designator
  | .aggregateContent => AggregateContent
  | .associations => List Association
  | .association => Association
  | .choiceList => List Choice
  | .choice => Choice
  | .consequence => Expr × Expr
  | .elsifParts => List ElsifPart
  | .elsePart => Option Expr
  | .caseAlternatives => List CaseAlternative
  | .caseAlternative => CaseAlternative
  | .loopSpec => LoopSpec
  | .iterationSource => IterationSource

/-- The tokens are the words of an operator of the table. -/
def Op.Spells (table : List Op) (op : Op) (text : List Token) : Prop :=
  op ∈ table ∧ text.map Token.kind = op.words

inductive Derives : (phrase : Phrase) → List Token → phrase.Node → Prop
  -- Operators.
  | relation {text : List Token} {expr : Expr} :
      Derives (.expr .relation) text expr → Derives (.expr .expression) text expr
  | logical {text words more : List Token} {left right : Expr} {op : Op} :
      Derives (.expr .expression) text left → Op.Spells Op.logical op words →
      Derives (.expr .relation) more right →
      Derives (.expr .expression) (text ++ words ++ more) (.ofBinary left op right)
  | simpleExpr {text : List Token} {expr : Expr} :
      Derives (.expr .simpleExpr) text expr → Derives (.expr .relation) text expr
  | comparison {text words more : List Token} {left right : Expr} {op : Op} :
      Derives (.expr .simpleExpr) text left → Op.Spells Op.relational op words →
      Derives (.expr .relation) more right →
      Derives (.expr .relation) (text ++ words ++ more) (.ofBinary left op right)
  | membership {text words more : List Token} {tested : Expr} {op : Op} {choices : List Choice} :
      Derives (.expr .simpleExpr) text tested → Op.Spells Op.membership op words →
      Derives .choiceList more choices →
      Derives (.expr .relation) (text ++ words ++ more)
        (.membership tested op choices
          (tested.span.join ((choices.getLast?.map Choice.span).getD (textSpan words))))
  | unopTerm {text : List Token} {expr : Expr} :
      Derives (.expr .unopTerm) text expr → Derives (.expr .simpleExpr) text expr
  | adding {text words more : List Token} {left right : Expr} {op : Op} :
      Derives (.expr .simpleExpr) text left → Op.Spells Op.adding op words →
      Derives (.expr .term) more right →
      Derives (.expr .simpleExpr) (text ++ words ++ more) (.ofBinary left op right)
  | signed {words text : List Token} {operand : Expr} {op : Op} :
      Op.Spells Op.unaryAdding op words → Derives (.expr .term) text operand →
      Derives (.expr .unopTerm) (words ++ text) (.ofUnary op (textSpan words) operand)
  | term {text : List Token} {expr : Expr} :
      Derives (.expr .term) text expr → Derives (.expr .unopTerm) text expr
  | factor {text : List Token} {expr : Expr} :
      Derives (.expr .factor) text expr → Derives (.expr .term) text expr
  | multiplying {text words more : List Token} {left right : Expr} {op : Op} :
      Derives (.expr .term) text left → Op.Spells Op.multiplying op words →
      Derives (.expr .factor) more right →
      Derives (.expr .term) (text ++ words ++ more) (.ofBinary left op right)
  | highestUnary {words text : List Token} {operand : Expr} {op : Op} :
      Op.Spells Op.highestUnary op words → Derives (.expr .primary) text operand →
      Derives (.expr .factor) (words ++ text) (.ofUnary op (textSpan words) operand)
  | primary {text : List Token} {expr : Expr} :
      Derives (.expr .primary) text expr → Derives (.expr .factor) text expr
  | power {text words more : List Token} {base exponent : Expr} {op : Op} :
      Derives (.expr .primary) text base → Op.Spells Op.exponent op words →
      Derives (.expr .primary) more exponent →
      Derives (.expr .factor) (text ++ words ++ more) (.ofBinary base op exponent)
  -- Primaries.
  | number {token : Token} :
      token.kind = .number → Derives (.expr .primary) [token] (.literal .number token)
  | null {token : Token} :
      token.kind = .kwNull → Derives (.expr .primary) [token] (.literal .null token)
  | name {text : List Token} {expr : Expr} :
      Derives (.expr .name) text expr → Derives (.expr .primary) text expr
  | allocator {text : List Token} {expr : Expr} :
      Derives (.expr .allocator) text expr → Derives (.expr .primary) text expr
  | conditional {text : List Token} {expr : Expr} :
      Derives (.expr .conditional) text expr → Derives (.expr .primary) text expr
  | raise {text : List Token} {expr : Expr} :
      Derives (.expr .raise) text expr → Derives (.expr .primary) text expr
  | parenthesized {opening closing : Token} {text : List Token} {expr : Expr} :
      opening.kind = .openParen → Derives (.expr .expression) text expr →
      closing.kind = .closeParen →
      Derives (.expr .primary) (opening :: text ++ [closing]) expr
  | parenthesizedConditional {opening closing : Token} {text : List Token} {expr : Expr} :
      opening.kind = .openParen → Derives (.expr .conditional) text expr →
      closing.kind = .closeParen →
      Derives (.expr .primary) (opening :: text ++ [closing]) expr
  | aggregate {text : List Token} {expr : Expr} :
      Derives (.expr .aggregate) text expr → Derives (.expr .primary) text expr
  -- Names.
  | directName {text : List Token} {expr : Expr} :
      Derives (.expr .directName) text expr → Derives (.expr .name) text expr
  | extended {text more : List Token} {base : Expr} {step : NameStep} :
      Derives (.expr .name) text base → Derives .step more step →
      Derives (.expr .name) (text ++ more) (step.extend base)
  | simpleName {text : List Token} {expr : Expr} :
      Derives (.expr .identifier) text expr → Derives (.expr .directName) text expr
  | stringLiteral {token : Token} :
      token.kind = .string →
      Derives (.expr .directName) [token] (.name (.simple ⟨.operatorSymbol, token⟩))
  | characterLiteral {token : Token} :
      token.kind = .char → Derives (.expr .directName) [token] (.literal .character token)
  | dereference {token : Token} :
      token.kind = .kwAll → Derives (.expr .directName) [token] (.dereference token.span)
  | attributeName {text : List Token} {expr : Expr} :
      Derives (.expr .attributeWord) text expr → Derives (.expr .directName) text expr
  | identifier {token : Token} :
      token.kind = .identifier →
      Derives (.expr .identifier) [token] (.name (.simple ⟨.identifier, token⟩))
  | attributeWord {token : Token} :
      token.kind ∈ [.kwAccess, .kwDelta, .kwDigits, .kwMod, .kwRange] →
      Derives (.expr .attributeWord) [token] (.literal .designator token)
  | reservedAttribute {text : List Token} {expr : Expr} :
      Derives (.expr .attributeWord) text expr → Derives (.expr .attribute) text expr
  | namedAttribute {text : List Token} {expr : Expr} :
      Derives (.expr .identifier) text expr → Derives (.expr .attribute) text expr
  | callStep {opening closing : Token} {text : List Token} {suffix : CallSuffix} :
      opening.kind = .openParen → Derives .callSuffix text suffix → closing.kind = .closeParen →
      Derives .step (opening :: text ++ [closing]) (.call suffix closing.span)
  | selection {dot : Token} {text : List Token} {selector : Expr} :
      dot.kind = .dot → Derives (.expr .directName) text selector →
      Derives .step (dot :: text) (.select selector)
  | attributeStep {tick : Token} {text : List Token} {designator : Expr} :
      tick.kind = .tick → Derives (.expr .attribute) text designator →
      Derives .step (tick :: text) (.attributeRef designator none (lastSpan text))
  | attributeCall {tick opening closing : Token} {text more : List Token} {designator : Expr}
      {arguments : CallSuffix} :
      tick.kind = .tick → Derives (.expr .attribute) text designator →
      opening.kind = .openParen → Derives .callSuffix more arguments →
      closing.kind = .closeParen →
      Derives .step (tick :: text ++ opening :: more ++ [closing])
        (.attributeRef designator (some arguments) closing.span)
  | qualification {tick opening closing : Token} {text : List Token} {operand : Expr} :
      tick.kind = .tick → opening.kind = .openParen → Derives (.expr .expression) text operand →
      closing.kind = .closeParen →
      Derives .step (tick :: opening :: text ++ [closing]) (.qualify operand closing.span)
  | aggregateQualification {tick : Token} {text : List Token} {operand : Expr} :
      tick.kind = .tick → Derives (.expr .aggregate) text operand →
      Derives .step (tick :: text) (.qualify operand (lastSpan text))
  | enumerationLiteral {token : Token} :
      token.kind = .identifier →
      Derives (.expr .enumerationLiteral) [token] (.name (.simple ⟨.enumeration, token⟩))
  | staticIdentifier {token : Token} :
      token.kind = .identifier → Derives .staticPart [token] ⟨.identifier, token⟩
  | staticSymbol {token : Token} :
      token.kind = .string → Derives .staticPart [token] ⟨.operatorSymbol, token⟩
  | staticName {text : List Token} {ident : Ident} :
      Derives .staticPart text ident → Derives (.expr .staticName) text (.name (.simple ident))
  | staticSelection {text more : List Token} {dot : Token} {base : Name} {ident : Ident} :
      Derives (.expr .staticName) text (.name base) → dot.kind = .dot →
      Derives .staticPart more ident →
      Derives (.expr .staticName) (text ++ dot :: more) (.name (base.select ident))
  -- Parameters.
  | slice {text : List Token} {bounds : Expr} :
      Derives (.expr .discreteRange) text bounds → Derives .callSuffix text (.range bounds)
  | parameters {text : List Token} {parts : List Association} :
      Derives .parameters text parts →
      Derives .callSuffix text (.parameters parts (associationsSpan parts))
  | parameter {text : List Token} {part : Association} :
      Derives .parameter text part → Derives .parameters text [part]
  | moreParameters {text more : List Token} {comma : Token} {parts : List Association}
      {part : Association} :
      Derives .parameters text parts → comma.kind = .comma → Derives .parameter more part →
      Derives .parameters (text ++ comma :: more) (parts ++ [part])
  | value {text : List Token} {value : Expr} :
      Derives (.expr .expression) text value → Derives (.expr .value) text value
  | box {token : Token} :
      token.kind = .diamond → Derives (.expr .value) [token] (.box token.span)
  | positional {text : List Token} {value : Expr} :
      Derives (.expr .value) text value → Derives .parameter text (.of none value)
  | named {text more : List Token} {arrow : Token} {designator : Designator} {value : Expr} :
      Derives .parameterDesignator text designator → arrow.kind = .arrow →
      Derives (.expr .value) more value →
      Derives .parameter (text ++ arrow :: more) (.of (some designator) value)
  | parameterName {text : List Token} {ident : Ident} :
      Derives .staticPart text ident → Derives .parameterDesignator text (.name ident)
  | parameterOthers {token : Token} :
      token.kind = .kwOthers → Derives .parameterDesignator [token] (.others token.span)
  -- Choices and aggregates.
  | discreteRange {text more : List Token} {dots : Token} {low high : Expr} :
      Derives (.expr .simpleExpr) text low → dots.kind = .dotDot →
      Derives (.expr .simpleExpr) more high →
      Derives (.expr .discreteRange) (text ++ dots :: more) (.ofBinary low .range high)
  | range {text : List Token} {bounds : Expr} :
      Derives (.expr .discreteRange) text bounds → Derives (.expr .rangeOrExpr) text bounds
  | expression {text : List Token} {expr : Expr} :
      Derives (.expr .expression) text expr → Derives (.expr .rangeOrExpr) text expr
  | exprChoice {text : List Token} {expr : Expr} :
      Derives (.expr .rangeOrExpr) text expr → Derives .choice text (.expr expr)
  | others {token : Token} :
      token.kind = .kwOthers → Derives .choice [token] (.others token.span)
  | choice {text : List Token} {choice : Choice} :
      Derives .choice text choice → Derives .choiceList text [choice]
  | moreChoices {text more : List Token} {bar : Token} {choices : List Choice} {choice : Choice} :
      Derives .choiceList text choices → bar.kind = .pipe → Derives .choice more choice →
      Derives .choiceList (text ++ bar :: more) (choices ++ [choice])
  | plainAggregate {opening closing : Token} {text : List Token} {content : AggregateContent} :
      opening.kind = .openParen → Derives .aggregateContent text content →
      closing.kind = .closeParen →
      Derives (.expr .aggregate) (opening :: text ++ [closing])
        (.aggregate none content (textSpan (opening :: text ++ [closing])))
  | extension {opening word closing : Token} {text more : List Token} {ancestor : Expr}
      {content : AggregateContent} :
      opening.kind = .openParen → Derives (.expr .expression) text ancestor →
      word.kind = .kwWith → Derives .aggregateContent more content →
      closing.kind = .closeParen →
      Derives (.expr .aggregate) (opening :: text ++ word :: more ++ [closing])
        (.aggregate (some ancestor) content
          (textSpan (opening :: text ++ word :: more ++ [closing])))
  | nullRecord {null record : Token} :
      null.kind = .kwNull → record.kind = .kwRecord →
      Derives .aggregateContent [null, record] (.nullRecord (null.span.join record.span))
  | fields {text : List Token} {parts : List Association} :
      Derives .associations text parts →
      Derives .aggregateContent text (.fields parts (associationsSpan parts))
  | association {text : List Token} {part : Association} :
      Derives .association text part → Derives .associations text [part]
  | moreAssociations {text more : List Token} {comma : Token} {parts : List Association}
      {part : Association} :
      Derives .associations text parts → comma.kind = .comma → Derives .association more part →
      Derives .associations (text ++ comma :: more) (parts ++ [part])
  | component {text : List Token} {value : Expr} :
      Derives (.expr .value) text value → Derives .association text (.of none value)
  | chosen {text more : List Token} {arrow : Token} {choices : List Choice} {value : Expr} :
      Derives .choiceList text choices → arrow.kind = .arrow → Derives (.expr .value) more value →
      Derives .association (text ++ arrow :: more)
        (.of (some (.ofChoices choices (textSpan text))) value)
  -- Conditional expressions.
  | ifConditional {text : List Token} {expr : Expr} :
      Derives (.expr .ifExpr) text expr → Derives (.expr .conditional) text expr
  | caseConditional {text : List Token} {expr : Expr} :
      Derives (.expr .caseExpr) text expr → Derives (.expr .conditional) text expr
  | quantifiedConditional {text : List Token} {expr : Expr} :
      Derives (.expr .quantified) text expr → Derives (.expr .conditional) text expr
  | consequence {text more : List Token} {word : Token} {condition value : Expr} :
      Derives (.expr .expression) text condition → word.kind = .kwThen →
      Derives (.expr .expression) more value →
      Derives .consequence (text ++ word :: more) (condition, value)
  | noElsif : Derives .elsifParts [] []
  | elsif {text more : List Token} {word : Token} {parts : List ElsifPart}
      {condition value : Expr} :
      Derives .elsifParts text parts → word.kind = .kwElsif →
      Derives .consequence more (condition, value) →
      Derives .elsifParts (text ++ word :: more)
        (parts ++ [.mk condition value (word.span.join value.span)])
  | noElse : Derives .elsePart [] none
  | else {text : List Token} {word : Token} {value : Expr} :
      word.kind = .kwElse → Derives (.expr .expression) text value →
      Derives .elsePart (word :: text) (some value)
  | ifExpr {word : Token} {first elsifText elseText : List Token} {condition value : Expr}
      {elsifs : List ElsifPart} {alternative : Option Expr} :
      word.kind = .kwIf → Derives .consequence first (condition, value) →
      Derives .elsifParts elsifText elsifs → Derives .elsePart elseText alternative →
      Derives (.expr .ifExpr) (word :: first ++ elsifText ++ elseText)
        (.ifExpr condition value elsifs alternative
          (textSpan (word :: first ++ elsifText ++ elseText)))
  | caseExpr {word is : Token} {text more : List Token} {subject : Expr}
      {alternatives : List CaseAlternative} :
      word.kind = .kwCase → Derives (.expr .expression) text subject → is.kind = .kwIs →
      Derives .caseAlternatives more alternatives →
      Derives (.expr .caseExpr) (word :: text ++ is :: more)
        (.caseExpr subject alternatives (textSpan (word :: text ++ is :: more)))
  | caseAlternatives {text : List Token} {part : CaseAlternative} :
      Derives .caseAlternative text part → Derives .caseAlternatives text [part]
  | moreAlternatives {text more : List Token} {comma : Token} {parts : List CaseAlternative}
      {part : CaseAlternative} :
      Derives .caseAlternatives text parts → comma.kind = .comma →
      Derives .caseAlternative more part →
      Derives .caseAlternatives (text ++ comma :: more) (parts ++ [part])
  | caseAlternative {word arrow : Token} {text more : List Token} {choices : List Choice}
      {value : Expr} :
      word.kind = .kwWhen → Derives .choiceList text choices → arrow.kind = .arrow →
      Derives (.expr .expression) more value →
      Derives .caseAlternative (word :: text ++ arrow :: more)
        (.mk choices value (word.span.join value.span))
  | quantified {word quantity arrow : Token} {text more : List Token} {quantifier : Quantifier}
      {loop : LoopSpec} {body : Expr} :
      word.kind = .kwFor → quantity.kind = quantifier.word → Derives .loopSpec text loop →
      arrow.kind = .arrow → Derives (.expr .rangeOrExpr) more body →
      Derives (.expr .quantified) (word :: quantity :: text ++ arrow :: more)
        (.quantified quantifier loop body (word.span.join body.span))
  | loopSpec {token word : Token} {text : List Token} {iteration : Iteration}
      {source : IterationSource} :
      token.kind = .identifier → word.kind = iteration.word → Derives .iterationSource text source →
      Derives .loopSpec (token :: word :: text)
        (.mk ⟨.identifier, token⟩ iteration false source (token.span.join source.span))
  | reversedLoopSpec {token word reverse : Token} {text : List Token} {iteration : Iteration}
      {source : IterationSource} :
      token.kind = .identifier → word.kind = iteration.word → reverse.kind = .kwReverse →
      Derives .iterationSource text source →
      Derives .loopSpec (token :: word :: reverse :: text)
        (.mk ⟨.identifier, token⟩ iteration true source (token.span.join source.span))
  | constrained {text more : List Token} {word : Token} {mark constraint : Expr} :
      Derives (.expr .name) text mark → word.kind = .kwRange →
      Derives (.expr .discreteRange) more constraint →
      Derives .iterationSource (text ++ word :: more)
        (.constrained mark constraint (mark.span.join constraint.span))
  | iterated {text : List Token} {source : Expr} :
      Derives (.expr .rangeOrExpr) text source → Derives .iterationSource text (.expr source)
  -- Allocators and raise expressions.
  | new {word : Token} {text : List Token} {designated : Expr} :
      word.kind = .kwNew → Derives (.expr .name) text designated →
      Derives (.expr .allocator) (word :: text)
        (.allocator none designated (word.span.join designated.span))
  | newIn {word opening closing : Token} {text more : List Token} {subpool designated : Expr} :
      word.kind = .kwNew → opening.kind = .openParen → Derives (.expr .name) text subpool →
      closing.kind = .closeParen → Derives (.expr .name) more designated →
      Derives (.expr .allocator) (word :: opening :: text ++ closing :: more)
        (.allocator (some subpool) designated (word.span.join designated.span))
  | reraise {word : Token} :
      word.kind = .kwRaise → Derives (.expr .raise) [word] (.raise none none (textSpan [word]))
  | raiseName {word : Token} {text : List Token} {exception : Expr} :
      word.kind = .kwRaise → Derives (.expr .name) text exception →
      Derives (.expr .raise) (word :: text) (.raise (some exception) none (textSpan (word :: text)))
  | raiseMessage {word with_ : Token} {text more : List Token} {exception message : Expr} :
      word.kind = .kwRaise → Derives (.expr .name) text exception → with_.kind = .kwWith →
      Derives (.expr .expression) more message →
      Derives (.expr .raise) (word :: text ++ with_ :: more)
        (.raise (some exception) (some message) (textSpan (word :: text ++ with_ :: more)))

end AdaExpressions
