import Mathlib.Logic.Relation
import AdaExpressions.Proofs.Reading.Basic
import AdaExpressions.Proofs.Tree.Formed

/-!
# The parts of a tree

Whatever a tree holds is a part of it: expressions with the site where they stand, the nodes that
only support others, and identifiers. `Part.IsCanonical` looks at one part; that a tree is canonical
says so of every part at any depth.

Whether a component is canonical is a question about its reading: what its designator says must be
what the choices before the arrow were.
-/

namespace AdaExpressions

/-- Where an expression stands. -/
inductive Site
  /-- The expression is the whole tree. -/
  | whole
  /-- Beside an operator, or before a membership operator. -/
  | operand
  | choice
  /-- Between the parentheses after a name, alone. -/
  | slice
  /-- Behind the arrow of a quantified expression. -/
  | body
  /-- What an iteration runs over, if not a constrained subtype. -/
  | source
  | constraint
  /-- The value of an association. -/
  | value
  | elsewhere
  deriving DecidableEq, Repr

inductive Part
  | expr (site : Site) (expr : Expr)
  | choice (choice : Choice)
  | content (content : AggregateContent)
  | component (part : Association)
  | suffix (suffix : CallSuffix)
  | parameter (part : Association)
  | elsif (part : ElsifPart)
  | alternative (part : CaseAlternative)
  | loop (loop : LoopSpec)
  | source (source : IterationSource)
  | ident (ident : Ident)

def Expr.parts : Expr → List Part
  | .unary _ operand _ => [.expr .operand operand]
  | .binary left _ right _ => [.expr .operand left, .expr .operand right]
  | .membership tested _ choices _ => .expr .operand tested :: choices.map .choice
  | .aggregate ancestor content _ => ancestor.toList.map (.expr .elsewhere) ++ [.content content]
  | .call callee suffix _ => [.expr .elsewhere callee, .suffix suffix]
  | .dereference _ => []
  | .box _ => []
  | .ifExpr condition consequence elsifs alternative _ =>
      [.expr .elsewhere condition, .expr .elsewhere consequence] ++ elsifs.map .elsif ++
        alternative.toList.map (.expr .elsewhere)
  | .caseExpr subject alternatives _ => .expr .elsewhere subject :: alternatives.map .alternative
  | .quantified _ loop body _ => [.loop loop, .expr .body body]
  | .allocator subpool designated _ =>
      subpool.toList.map (.expr .elsewhere) ++ [.expr .elsewhere designated]
  | .qualified mark operand _ => [.expr .elsewhere mark, .expr .elsewhere operand]
  | .attributeRef base designator arguments _ =>
      [.expr .elsewhere base, .expr .elsewhere designator] ++ arguments.toList.map .suffix
  | .raise exception message _ =>
      exception.toList.map (.expr .elsewhere) ++ message.toList.map (.expr .elsewhere)
  | .selection base selector _ => [.expr .elsewhere base, .expr .elsewhere selector]
  | .name path => path.components.map .ident
  | .literal _ _ => []

def Designator.parts : Designator → List Part
  | .name ident => [.ident ident]
  | .others _ => []
  | .choices list _ => list.map .choice

def Association.parts (part : Association) : List Part :=
  part.designator.toList.flatMap Designator.parts ++ [.expr .value part.value]

namespace Part

/-- The parts right below a part. -/
def children : Part → List Part
  | .expr _ tree => tree.parts
  | .choice (.expr inner) => [.expr .choice inner]
  | .choice (.others _) => []
  | .content (.fields parts _) => parts.map .component
  | .content (.nullRecord _) => []
  | .component part => part.parts
  | .suffix (.range bounds) => [.expr .slice bounds]
  | .suffix (.parameters parts _) => parts.map .parameter
  | .parameter part => part.parts
  | .elsif (.mk condition consequence _) =>
      [.expr .elsewhere condition, .expr .elsewhere consequence]
  | .alternative (.mk choices value _) => choices.map .choice ++ [.expr .elsewhere value]
  | .loop (.mk counter _ _ values _) => [.ident counter, .source values]
  | .source (.constrained mark constraint _) =>
      [.expr .elsewhere mark, .expr .constraint constraint]
  | .source (.expr inner) => [.expr .source inner]
  | .ident _ => []

/-- The other part is this one or stands below it. -/
def Holds : Part → Part → Prop :=
  Relation.ReflTransGen fun part child => child ∈ part.children

end Part

/-! ### Canonical parts -/

def Expr.isBox : Expr → Bool
  | .box _ => true
  | _ => false

/-- The sites where a range may stand. -/
def Site.ofRanges : List Site :=
  [.choice, .slice, .body, .source, .constraint]

/-- Ranges stand where they are asked for and nowhere else, boxes only for values. -/
structure Site.Admits (site : Site) (expr : Expr) : Prop where
  range : expr.isRange = true → site ∈ ofRanges
  bounds : site = .slice ∨ site = .constraint → expr.isRange = true
  box : expr.isBox = true → site = .value

/-- Lists have items, what is called is no attribute without arguments, and a simple name selected
out of a name has made a longer name. -/
def Expr.IsCanonical : Expr → Prop
  | .membership _ _ choices _ => choices ≠ []
  | .caseExpr _ alternatives _ => alternatives ≠ []
  | .call callee _ _ => callee.isBareAttribute = false
  | .selection base selector _ => ¬ (base.asName?.isSome = true ∧ selector.isIdent = true)
  | _ => True

/-- The designator of a component whose choices are these: it is `others` exactly if nothing else
was chosen, and the list of them all if something was. -/
structure Designator.Tells (designator : Designator) (choices : List Choice) : Prop where
  others : (∃ span, designator = .others span) ↔ ∃ span, choices = [.others span]
  list : ∀ list span, designator = .choices list span → list = choices
  unnamed : ∀ ident, designator ≠ .name ident

/-- The designator, if there is one, tells the choices that are read from the index to an arrow. -/
def Association.TellsChoices (part : Association) (setting : Setting) (start : Nat) : Prop :=
  ∀ designator ∈ part.designator, ∃ choices stop,
    Reads setting (.call .choiceList) start (.done choices stop) ∧
      setting.buffer.kind stop = .arrow ∧ designator.Tells choices

def Part.IsCanonical (setting : Setting) : Part → Prop
  | .expr site tree => site.Admits tree ∧ tree.IsCanonical
  | .content (.fields parts _) => parts ≠ []
  | .component part =>
      (∃ start stop, Reads setting (.call .aggregateAssociation) start (.done part stop) ∧
        part.TellsChoices setting start) ∧
      ∀ list span, part.designator = some (.choices list span) → list ≠ []
  | .suffix (.parameters parts _) => parts ≠ []
  | .parameter part => ∀ list span, part.designator ≠ some (.choices list span)
  | .alternative (.mk choices _ _) => choices ≠ []
  | .ident simple => simple.form ≠ .enumeration
  | _ => True

end AdaExpressions
