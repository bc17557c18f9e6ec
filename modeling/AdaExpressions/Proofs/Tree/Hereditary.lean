import AdaExpressions.Proofs.Reading.Choosing
import AdaExpressions.Proofs.Tree.Formed

/-!
# What all trees that are read inherit

A property is hereditary if a tree has it whenever its parts do, in each of the ways in which the
rules put trees together. One contract for all rules shows that whatever is read has every
hereditary property, so the rules are gone through once.

Two facts that a property may count on are not about trees alone: a component was read as one, and
nothing is called that ends in an attribute without arguments. A call has read its suffix where it
starts, and behind such an attribute no suffix can be read.

Result: `Hereditary.of_reads`.
-/

namespace AdaExpressions

/-- What the rules put together has the property whenever its parts have it. -/
structure Hereditary (setting : Setting) (holds : (form : TreeForm) → form.Node → Prop) : Prop where
  unary {op : Op} {operand : Expr} {span : Span} :
    op ∈ Op.unary → holds (.expr .expression) operand →
    holds (.expr .expression) (.unary op operand span)
  binary {left right : Expr} {op : Op} {span : Span} :
    op ∈ Op.binary → holds (.expr .expression) left → holds (.expr .expression) right →
    holds (.expr .expression) (.binary left op right span)
  membership {tested : Expr} {op : Op} {choices : List Choice} {span : Span} :
    op ∈ Op.membership → holds (.expr .expression) tested → choices ≠ [] →
    (∀ choice ∈ choices, holds .choice choice) →
    holds (.expr .expression) (.membership tested op choices span)
  number {index : Nat} :
    setting.buffer.kind index = .number →
    holds (.expr .expression) (.literal .number (setting.buffer.token index))
  null {index : Nat} :
    setting.buffer.kind index = .kwNull →
    holds (.expr .expression) (.literal .null (setting.buffer.token index))
  name {tree : Expr} : holds (.expr .name) tree → holds (.expr .expression) tree
  new {designated : Expr} {span : Span} :
    holds (.expr .name) designated → holds (.expr .expression) (.allocator none designated span)
  newIn {subpool designated : Expr} {span : Span} :
    holds (.expr .name) subpool → holds (.expr .name) designated →
    holds (.expr .expression) (.allocator (some subpool) designated span)
  reraise {span : Span} : holds (.expr .expression) (.raise none none span)
  raiseName {exception : Expr} {span : Span} :
    holds (.expr .name) exception →
    holds (.expr .expression) (.raise (some exception) none span)
  raiseMessage {exception message : Expr} {span : Span} :
    holds (.expr .name) exception → holds (.expr .expression) message →
    holds (.expr .expression) (.raise (some exception) (some message) span)
  aggregate {content : AggregateContent} {span : Span} :
    holds .content content → holds (.expr .expression) (.aggregate none content span)
  extension {ancestor : Expr} {content : AggregateContent} {span : Span} :
    holds (.expr .expression) ancestor → holds .content content →
    holds (.expr .expression) (.aggregate (some ancestor) content span)
  ifExpr {condition consequence : Expr} {elsifs : List ElsifPart} {alternative : Option Expr}
      {span : Span} :
    holds (.expr .expression) condition → holds (.expr .expression) consequence →
    (∀ part ∈ elsifs, holds .elsif part) →
    (∀ value ∈ alternative, holds (.expr .expression) value) →
    holds (.expr .expression) (.ifExpr condition consequence elsifs alternative span)
  caseExpr {subject : Expr} {alternatives : List CaseAlternative} {span : Span} :
    holds (.expr .expression) subject → alternatives ≠ [] →
    (∀ part ∈ alternatives, holds .alternative part) →
    holds (.expr .expression) (.caseExpr subject alternatives span)
  quantified {quantifier : Quantifier} {loop : LoopSpec} {body : Expr} {span : Span} :
    holds .loop loop → holds (.expr .scope) body →
    holds (.expr .expression) (.quantified quantifier loop body span)
  -- Names.
  direct {tree : Expr} : holds (.expr .direct) tree → holds (.expr .name) tree
  direct_bare {tree : Expr} : holds (.expr .direct) tree → tree.isBareAttribute = false
  identifier {index : Nat} :
    setting.buffer.kind index = .identifier →
    holds (.expr .attribute) (.name (.simple ⟨.identifier, setting.buffer.token index⟩))
  operatorSymbol {index : Nat} :
    setting.buffer.kind index = .string →
    holds (.expr .direct) (.name (.simple ⟨.operatorSymbol, setting.buffer.token index⟩))
  character {index : Nat} :
    setting.buffer.kind index = .char →
    holds (.expr .direct) (.literal .character (setting.buffer.token index))
  dereference {span : Span} : holds (.expr .direct) (.dereference span)
  attributeWord {index : Nat} :
    setting.buffer.kind index ∈ [.kwAccess, .kwDelta, .kwDigits, .kwMod, .kwRange] →
    holds (.expr .attribute) (.literal .designator (setting.buffer.token index))
  designator {tree : Expr} : holds (.expr .attribute) tree → holds (.expr .direct) tree
  selected {base : Name} {selector : Ident} {span : Span} :
    holds (.expr .name) (.name base) → holds (.expr .direct) (.name (.simple selector)) →
    holds (.expr .name) (.name (.selected base selector span))
  /-- Only an enumeration literal is selected out of a name without making a longer name. -/
  selection {base selector : Expr} {span : Span} :
    holds (.expr .name) base → holds (.expr .direct) selector →
    (∀ path ident, base = .name path → selector = .name (.simple ident) →
      ident.form = .enumeration) →
    holds (.expr .name) (.selection base selector span)
  call {callee : Expr} {suffix : CallSuffix} {span : Span} :
    holds (.expr .name) callee → callee.isBareAttribute = false → holds .suffix suffix →
    holds (.expr .name) (.call callee suffix span)
  attributeRef {base designator : Expr} {span : Span} :
    holds (.expr .name) base → holds (.expr .attribute) designator →
    holds (.expr .name) (.attributeRef base designator none span)
  attributeCall {base designator : Expr} {arguments : CallSuffix} {span : Span} :
    holds (.expr .name) base → holds (.expr .attribute) designator → holds .suffix arguments →
    holds (.expr .name) (.attributeRef base designator (some arguments) span)
  qualified {mark operand : Expr} {span : Span} :
    holds (.expr .name) mark → holds (.expr .expression) operand →
    holds (.expr .name) (.qualified mark operand span)
  -- Parameters, choices and aggregates.
  range {low high : Expr} {span : Span} :
    holds (.expr .expression) low → holds (.expr .expression) high →
    holds (.expr .range) (.binary low .range high span)
  rangeScope {bounds : Expr} : holds (.expr .range) bounds → holds (.expr .scope) bounds
  exprScope {tree : Expr} : holds (.expr .expression) tree → holds (.expr .scope) tree
  value {tree : Expr} : holds (.expr .expression) tree → holds (.expr .value) tree
  box {span : Span} : holds (.expr .value) (.box span)
  choice {tree : Expr} : holds (.expr .scope) tree → holds .choice (.expr tree)
  others {span : Span} : holds .choice (.others span)
  slice {bounds : Expr} : holds (.expr .range) bounds → holds .suffix (.range bounds)
  parameters {parts : List Association} {span : Span} :
    parts ≠ [] → (∀ part ∈ parts, holds .parameter part) →
    holds .suffix (.parameters parts span)
  positional {value : Expr} {span : Span} :
    holds (.expr .value) value → holds .parameter (.mk none value span)
  named {ident : Ident} {value : Expr} {span : Span} :
    holds (.expr .direct) (.name (.simple ident)) → holds (.expr .value) value →
    holds .parameter (.mk (some (.name ident)) value span)
  otherParameters {value : Expr} {span othersSpan : Span} :
    holds (.expr .value) value → holds .parameter (.mk (some (.others othersSpan)) value span)
  nullRecord {span : Span} : holds .content (.nullRecord span)
  fields {parts : List Association} {span : Span} :
    parts ≠ [] → (∀ part ∈ parts, holds .association part) →
    (∀ part ∈ parts, ∃ start stop,
      Reads setting (.call .aggregateAssociation) start (.done part stop)) →
    holds .content (.fields parts span)
  component {value : Expr} {span : Span} :
    holds (.expr .value) value → holds .association (.mk none value span)
  otherComponents {value : Expr} {span othersSpan : Span} :
    holds (.expr .value) value → holds .association (.mk (some (.others othersSpan)) value span)
  chosen {choices : List Choice} {value : Expr} {span choicesSpan : Span} :
    choices ≠ [] → (∀ choice ∈ choices, holds .choice choice) →
    (∀ othersSpan, choices ≠ [.others othersSpan]) → holds (.expr .value) value →
    holds .association (.mk (some (.choices choices choicesSpan)) value span)
  -- Parts of conditional expressions.
  elsif {condition consequence : Expr} {span : Span} :
    holds (.expr .expression) condition → holds (.expr .expression) consequence →
    holds .elsif (.mk condition consequence span)
  alternative {choices : List Choice} {value : Expr} {span : Span} :
    choices ≠ [] → (∀ choice ∈ choices, holds .choice choice) →
    holds (.expr .expression) value → holds .alternative (.mk choices value span)
  loop {token : Token} {iteration : Iteration} {reversed : Bool} {source : IterationSource}
      {span : Span} :
    holds (.expr .attribute) (.name (.simple ⟨.identifier, token⟩)) → holds .source source →
    holds .loop (.mk ⟨.identifier, token⟩ iteration reversed source span)
  constrained {mark constraint : Expr} {span : Span} :
    holds (.expr .name) mark → holds (.expr .range) constraint →
    holds .source (.constrained mark constraint span)
  iterated {source : Expr} : holds (.expr .scope) source → holds .source (.expr source)

theorem Expr.isBareAttribute_select (base selector : Expr) :
    (base.select selector).isBareAttribute = false := by
  unfold select
  split
  · split <;> rfl
  · rfl

def ExprRule.form : ExprRule → ExprForm
  | .name => .name
  | .characterLiteral | .stringLiteral | .directName | .oneOf .directName _ | .dereference
  | .enumerationLiteral => .direct
  | .identifier | .keywordAttribute | .attributeDesignator => .attribute
  | .discreteRange => .range
  | _ => .expression

/-- A call has read its suffix, and an attribute without arguments could not read any. -/
def NameStep.Inherits (setting : Setting) (holds : (form : TreeForm) → form.Node → Prop)
    (start : Nat) (step : NameStep) (stop : Nat) : Prop :=
  match step with
  | .call suffix _ => holds .suffix suffix ∧
      Reads setting (.parenthesized (.call .callSuffix)) start (.done suffix stop)
  | .select selector => holds (.expr .direct) selector
  | .attributeRef designator none _ =>
      holds (.expr .attribute) designator ∧
        (Program.parenthesized (.call .callSuffix)).FailsAt setting stop
  | .attributeRef designator (some arguments) _ =>
      holds (.expr .attribute) designator ∧ holds .suffix arguments
  | .qualify operand _ => holds (.expr .expression) operand

def Rule.Inherits (setting : Setting) (holds : (form : TreeForm) → form.Node → Prop) :
    (rule : Rule) → Nat → rule.Node → Nat → Prop
  | .expr rule, _, tree, _ => holds (.expr rule.form) tree
  | .step _, start, node, stop => NameStep.Inherits setting holds start node stop
  | .choice, _, node, _ => holds .choice node
  | .choiceList, _, choices, _ => choices ≠ [] ∧ ∀ choice ∈ choices, holds .choice choice
  | .aggregateAssociation, _, part, _ => holds .association part
  | .parameterAssociation, _, part, _ => holds .parameter part
  | .callSuffix, _, suffix, _ => holds .suffix suffix
  | .loopSpec, _, loop, _ => holds .loop loop

/-- No rule calls the rule of static names or that of enumeration literals. -/
def inheriting (setting : Setting) (holds : (form : TreeForm) → form.Node → Prop) : Contract where
  allows rule _ := rule ≠ .expr .staticName ∧ rule ≠ .expr .enumerationLiteral
  ensures := Rule.Inherits setting holds

def Program.Inherits (setting : Setting) (holds : (form : TreeForm) → form.Node → Prop)
    (form : TreeForm) (program : Program form.Node) (start : Nat) : Prop :=
  program.Meets setting (inheriting setting holds) start fun node _ => holds form node

section

variable {setting : Setting} {holds : (form : TreeForm) → form.Node → Prop} {start : Nat}

@[simp] theorem inheriting_allows {rule : Rule} {index : Nat} :
    (inheriting setting holds).allows rule index ↔
      rule ≠ .expr .staticName ∧ rule ≠ .expr .enumerationLiteral :=
  Iff.rfl

@[simp] theorem inheriting_expr {rule : ExprRule} {start stop : Nat} {tree : Expr} :
    (inheriting setting holds).ensures (.expr rule) start tree stop ↔
      holds (.expr rule.form) tree :=
  Iff.rfl

/-! ### Rules that put nothing together -/

namespace Grammar

open Program

/-- An expression behind an operator or another token. -/
theorem inherits_expression {rule : ExprRule} {index : Nat} {goal : Expr → Nat → Prop}
    (form : rule.form = .expression)
    (allowed : (inheriting setting holds).allows (.expr rule) index)
    (reached : ∀ tree stop, index < stop → holds (.expr .expression) tree → goal tree stop) :
    (expr rule).Meets setting (inheriting setting holds) index goal :=
  ⟨allowed, fun tree stop reads here =>
    reached tree stop (Rule.stop_of_reads reads).1 (form ▸ inheriting_expr.mp here)⟩

theorem parenthesizedExpr_inherits :
    parenthesizedExpr.Inherits setting holds (.expr .expression) start := by
  simp only [Program.Inherits, parenthesizedExpr, meets_parenthesized]
  exact fun _ _ => ⟨inherits_expression rfl (by simp) fun _ _ _ here _ _ => here,
    fun _ => inherits_expression rfl (by simp) fun _ _ _ here _ _ => here⟩

theorem consequence_inherits {index : Nat} {goal : Expr × Expr → Nat → Prop}
    (reached : ∀ condition value stop, index < stop →
      holds (.expr .expression) condition →
      holds (.expr .expression) value → goal (condition, value) stop) :
    consequence.Meets setting (inheriting setting holds) index goal := by
  simp only [consequence, meets_bind]
  refine inherits_expression rfl (by simp) fun condition middle moved before => ?_
  refine (meets_take (by decide)).mpr fun _ _ => ?_
  exact inherits_expression rfl (by simp) fun value stop movedOn after =>
    reached _ _ _ (by omega) before after

/-- A list of items joined by separators has an item, and they are all as the items are. -/
theorem separated_inherits {α : Type} {holding : α → Prop} {separator : Kind} {item : Program α}
    {index : Nat} {goal : List α → Nat → Prop} (more : separator ≠ .eof)
    (items : ∀ index, item.Meets setting (inheriting setting holds) index fun node stop =>
      index < stop ∧ holding node)
    (reached : ∀ nodes stop, nodes ≠ [] → (∀ node ∈ nodes, holding node) → goal nodes stop) :
    (separated separator item).Meets setting (inheriting setting holds) index goal := by
  refine meets_separated more (fun nodes _ => nodes ≠ [] ∧ ∀ node ∈ nodes, holding node) ?_ ?_
    fun nodes stop here => reached nodes stop here.1 here.2
  · refine (items index).mono fun node _ here => ⟨by simp, ?_⟩
    exact List.forall_mem_singleton.mpr here.2
  · intro nodes middle before _ _
    refine (items (middle + 1)).mono fun node stop here => ⟨by omega, by simp, ?_⟩
    exact List.forall_mem_append.mpr ⟨before.2, List.forall_mem_singleton.mpr here.2⟩

theorem choiceList_inherits :
    choiceList.Meets setting (inheriting setting holds) start fun choices _ =>
      choices ≠ [] ∧ ∀ choice ∈ choices, holds .choice choice :=
  separated_inherits (by decide)
    (fun _ => ⟨by simp, fun _ _ reads here => ⟨(Rule.stop_of_reads reads).1, here⟩⟩)
    fun _ _ => And.intro

theorem attributeDesignator_inherits :
    attributeDesignator.Inherits setting holds (.expr .attribute) start :=
  ⟨⟨by simp, fun _ _ _ here => here⟩,
    fun _ => ⟨by simp, fun _ _ _ here => here⟩⟩

/-- A token of a kind that a leaf is made of. -/
theorem literal_inherits {form : ExprForm} {literal_ : LiteralForm} {kind : Kind}
    (more : kind ≠ .eof)
    (leaf : ∀ {index : Nat}, setting.buffer.kind index = kind →
      holds (.expr form) (.literal literal_ (setting.buffer.token index))) :
    (literal literal_ kind).Inherits setting holds (.expr form) start := by
  simp only [Program.Inherits, literal, meets_bind]
  exact (meets_take more).mpr fun found _ => leaf found

theorem callStep_inherits : callStep.Meets setting (inheriting setting holds) start
    fun step stop => step.Inherits setting holds start stop := by
  simp only [callStep, meets_bind]
  rw [meets_take (by decide)]
  refine fun opened _ => ⟨by simp, fun suffix stop reads inner => ?_⟩
  refine (meets_take (by decide)).mpr fun closed _ => ⟨inner, ?_⟩
  exact .andThen (reads_take opened (by decide)) (.andThen reads
    (.andThen (reads_take closed (by decide)) .yield))

theorem selectionStep_inherits : selectionStep.Meets setting (inheriting setting holds) start
    fun step stop => step.Inherits setting holds start stop := by
  simp only [selectionStep, meets_bind]
  rw [meets_take (by decide)]
  exact fun _ _ => ⟨by simp, fun selector stop _ here => here⟩

theorem attributeStep_inherits : attributeStep.Meets setting (inheriting setting holds) start
    fun step stop => step.Inherits setting holds start stop := by
  simp only [attributeStep, meets_bind, meets_extent]
  rw [meets_take (by decide)]
  refine fun _ _ => ⟨by simp, fun designator middle _ here => ?_⟩
  have here : holds (.expr .attribute) designator := here
  refine ⟨meets_parenthesized.mpr fun _ _ => ?_, fun fails => ⟨here, fails⟩⟩
  exact ⟨by simp, fun arguments stop _ inner _ _ => ⟨here, inner⟩⟩

theorem qualificationStep_inherits :
    qualificationStep.Meets setting (inheriting setting holds) start
      fun step stop => step.Inherits setting holds start stop := by
  simp only [qualificationStep, meets_bind, meets_extent]
  rw [meets_take (by decide)]
  refine fun _ _ => ?_
  rw [meets_orElse, meets_parenthesized]
  exact ⟨fun _ _ => inherits_expression rfl (by simp) fun _ _ _ here _ _ => here,
    fun _ => inherits_expression rfl (by simp) fun _ _ _ here => here⟩

/-- A name is no longer an attribute without arguments where arguments can be read. -/
def bareAt (setting : Setting) (base : Expr) (index : Nat) : Prop :=
  base.isBareAttribute = true → (parenthesized (call .callSuffix)).FailsAt setting index

variable (keeps : Hereditary setting holds)

include keeps

/-! ### Operators -/

theorem leftChain_inherits {table : List Op} {first right : ExprRule} (binary : table ⊆ Op.binary)
    (starts : (expr first).Inherits setting holds (.expr .expression) start)
    (operands : ∀ index, (inheriting setting holds).allows (.expr right) index)
    (form : right.form = .expression) :
    (leftChain table first right).Inherits setting holds (.expr .expression) start := by
  refine meets_leftChain (fun tree _ => holds (.expr .expression) tree) starts ?_ fun _ _ => id
  intro left index op before known words
  refine inherits_expression form (operands _) fun operand stop moved after => ?_
  have behind := words.operator
  exact ⟨by omega, keeps.binary (binary known) before after⟩

theorem logicalChain_inherits : logicalChain.Inherits setting holds (.expr .expression) start := by
  simp only [Program.Inherits, logicalChain, meets_bind]
  refine inherits_expression rfl (by simp) fun operand stop _ here => ?_
  refine meets_iterate (fun chain _ => holds (.expr .expression) chain.1) here ?_
  rintro ⟨left, previous⟩ middle before
  simp only [logicalStep, meets_bind, meets_nextOperator]
  split
  next op found =>
    refine meets_attemptRight (fun words => ?_) before
    refine inherits_expression rfl (by simp) fun operand stop moved after => ?_
    have behind := words.operator
    have binary : Op.logical ⊆ Op.binary := by decide
    have whole : holds (.expr .expression) (.ofBinary left op operand) :=
      keeps.binary (binary (Op.mem_of_next? found)) before after
    dsimp only
    split
    · simp only [meets_bind, meets_ite, meets_forbid, meets_pure]
      exact ⟨fun _ _ => ⟨by omega, whole⟩, fun _ => ⟨by omega, whole⟩⟩
    · exact ⟨by omega, whole⟩
  next => exact before

theorem nestCompared_inherits {compared : Compared} {last : Expr}
    (operands : ∀ pair ∈ compared, holds (.expr .expression) pair.1 ∧
      pair.2 ∈ Op.relational)
    (formed : holds (.expr .expression) last) :
    holds (.expr .expression) (nestCompared compared last) := by
  have binary : Op.relational ⊆ Op.binary := by decide
  induction compared generalizing last with
  | nil => exact formed
  | cons pair more ih =>
      obtain ⟨left, known⟩ := operands pair List.mem_cons_self
      exact ih (fun pair member => operands pair (List.mem_cons_of_mem _ member))
        (keeps.binary (binary known) left formed)

theorem relation_inherits : relation.Inherits setting holds (.expr .expression) start := by
  simp only [Program.Inherits, relation, relationFrom, meets_bind]
  refine inherits_expression rfl (by simp) fun operand stop _ here => ?_
  refine meets_iterate (fun state _ => holds (.expr .expression) state.2 ∧
    ∀ pair ∈ state.1, holds (.expr .expression) pair.1 ∧ pair.2 ∈ Op.relational)
    ⟨here, by simp⟩ ?_
  rintro ⟨compared, last⟩ index ⟨before, operands⟩
  have ends : (membershipTest compared last).Meets setting (inheriting setting holds) index
      fun relation _ => holds (.expr .expression) (nestCompared compared relation) := by
    have alone := nestCompared_inherits keeps operands before
    simp only [membershipTest, meets_bind, meets_nextOperator]
    split
    next op found =>
      refine meets_attemptRight (fun words => ⟨by simp, fun choices stop _ after => ?_⟩) alone
      have whole (span : Span) : holds (.expr .expression)
          (nestCompared compared (.membership last op choices span)) :=
        nestCompared_inherits keeps operands
          (keeps.membership (Op.mem_of_next? found) before after.1 after.2)
      simp only [forbidChained, meets_ite, meets_bind, meets_pure, meets_forbid]
      exact ⟨fun _ => whole _, fun _ _ => whole _⟩
    next => exact alone
  simp only [comparisonStep, meets_bind, meets_nextOperator]
  split
  next op found =>
    refine meets_attemptRight (fun words => ?_) ends
    refine inherits_expression rfl (by simp) fun operand stop moved after => ?_
    have behind := words.operator
    have further : ∀ pair ∈ (last, op) :: compared,
        holds (.expr .expression) pair.1 ∧ pair.2 ∈ Op.relational :=
      List.forall_mem_cons.mpr ⟨⟨before, Op.mem_of_next? found⟩, operands⟩
    simp only [forbidChained, meets_ite, meets_bind, meets_pure, meets_forbid]
    exact ⟨fun _ => ⟨by omega, after, further⟩, fun _ _ => ⟨by omega, after, further⟩⟩
  next => exact ends

theorem unary_inherits {table : List Op} {operand : ExprRule} {plain : Program Expr}
    (known : table ⊆ Op.unary) (form : operand.form = .expression)
    (allowed : ∀ index, (inheriting setting holds).allows (.expr operand) index)
    (formed : plain.Inherits setting holds (.expr .expression) start) :
    (unary table operand plain).Inherits setting holds (.expr .expression) start := by
  refine meets_unary (fun op member words => ?_) formed
  exact inherits_expression form (allowed _) fun operand stop _ after =>
    keeps.unary (known member) after

theorem power_inherits : power.Inherits setting holds (.expr .expression) start := by
  simp only [Program.Inherits, power, meets_bind, meets_nextOperator]
  refine inherits_expression rfl (by simp) fun base middle _ before => ?_
  split
  next op found =>
    refine meets_attemptRight (fun words => ?_) before
    have binary : Op.exponent ⊆ Op.binary := by decide
    exact inherits_expression rfl (by simp) fun operand stop _ after =>
      keeps.binary (binary (Op.mem_of_next? found)) before after
  next => exact before

/-! ### Names -/

theorem identifier_inherits :
    (simpleName .identifier).Inherits setting holds (.expr .attribute) start := by
  simp only [Program.Inherits, simpleName, ident, meets_bind]
  exact (meets_take (by decide)).mpr fun found _ => keeps.identifier found

theorem stringLiteral_inherits :
    (simpleName .operatorSymbol).Inherits setting holds (.expr .direct) start := by
  simp only [Program.Inherits, simpleName, ident, meets_bind]
  exact (meets_take (by decide)).mpr fun found _ => keeps.operatorSymbol found

theorem keywordAttribute_inherits :
    keywordAttribute.Inherits setting holds (.expr .attribute) start := by
  simp only [Program.Inherits, keywordAttribute, meets_bind]
  exact (meets_takeOneOf (by decide)).mpr fun found _ => keeps.attributeWord found

theorem select_inherits {base selector : Expr} (before : holds (.expr .name) base)
    (after : holds (.expr .direct) selector) : holds (.expr .name) (base.select selector) := by
  unfold Expr.select
  split
  next path ident =>
    split
    next enumeration =>
      refine keeps.selection before after fun _ other _ same => ?_
      cases same
      exact enumeration
    next => exact keeps.selected before after
  next apart =>
    exact keeps.selection before after fun path ident named simple =>
      (apart path ident named simple).elim

/-- What a longer name inherits, and what is known of it where it ends. -/
theorem extend_inherits {base : Expr} {step : NameStep} {index stop : Nat}
    (before : holds (.expr .name) base) (bare : bareAt setting base index)
    (after : step.Inherits setting holds index stop) :
    holds (.expr .name) (step.extend base) ∧ bareAt setting (step.extend base) stop := by
  cases step with
  | call suffix closing =>
      refine ⟨keeps.call before (Bool.eq_false_iff.mpr fun is => ?_) after.1, nofun⟩
      obtain ⟨failure, fails, _⟩ := bare is
      cases fails.unique after.2
  | select selector =>
      refine ⟨select_inherits keeps before after, fun is => ?_⟩
      have selected := Expr.isBareAttribute_select base selector
      cases selected.symm.trans is
  | attributeRef designator arguments last =>
      cases arguments with
      | none => exact ⟨keeps.attributeRef before after.1, fun _ => after.2⟩
      | some arguments => exact ⟨keeps.attributeCall before after.1 after.2, nofun⟩
  | qualify operand last => exact ⟨keeps.qualified before after, nofun⟩

theorem name_inherits : name.Inherits setting holds (.expr .name) start := by
  simp only [Program.Inherits, name, meets_bind]
  refine ⟨by simp, fun base stop _ (here : holds (.expr .direct) base) => ?_⟩
  have bare : bareAt setting base stop := fun is => by cases (keeps.direct_bare here).symm.trans is
  refine meets_iterate (fun base index => holds (.expr .name) base ∧ bareAt setting base index)
    ⟨keeps.direct here, bare⟩ ?_
  intro base middle before
  have extends_ (rule : StepRule) (step : NameStep) (stop : Nat)
      (reads : Reads setting (call (.step rule)) middle (.done step stop))
      (after : step.Inherits setting holds middle stop) :
      middle < stop ∧ holds (.expr .name) (step.extend base) ∧
        bareAt setting (step.extend base) stop :=
    ⟨(Rule.stop_of_reads reads).1, extend_inherits keeps before.1 before.2 after⟩
  simp only [StepRule.ordered, List.map_cons, List.map_nil, meets_bind, meets_firstOf_cons,
    meets_firstOf_nil, meets_call (.step _), meets_pure, Option.map_some, Option.map_none]
  refine ⟨⟨by simp, extends_ _⟩, fun _ => ⟨⟨by simp, extends_ _⟩,
    fun _ => ⟨⟨by simp, extends_ _⟩, fun _ => ⟨⟨by simp, extends_ _⟩, fun _ => before.1⟩⟩⟩⟩

/-! ### Parameters and choices -/

theorem discreteRange_inherits : discreteRange.Inherits setting holds (.expr .range) start := by
  simp only [Program.Inherits, discreteRange, meets_bind]
  refine inherits_expression rfl (by simp) fun low middle _ before => ?_
  refine (meets_take (by decide)).mpr fun _ _ => ?_
  exact inherits_expression rfl (by simp) fun high stop _ after => keeps.range before after

theorem inherits_scope {index : Nat} {goal : Expr → Nat → Prop}
    (reached : ∀ tree stop, holds (.expr .scope) tree → goal tree stop) :
    (orElse (expr .discreteRange) (expr .expression)).Meets setting (inheriting setting holds) index
      goal :=
  ⟨⟨by simp, fun _ _ _ here => reached _ _ (keeps.rangeScope here)⟩,
    fun _ => inherits_expression rfl (by simp) fun _ _ _ here =>
      reached _ _ (keeps.exprScope here)⟩

theorem choice_inherits : choice.Inherits setting holds .choice start := by
  simp only [Program.Inherits, choice, meets_bind, meets_firstOf_cons, meets_firstOf_nil]
  refine ⟨⟨by simp, fun _ _ _ here => ?_⟩, fun _ => ⟨?_, fun _ => ?_⟩⟩
  · exact keeps.choice (keeps.rangeScope here)
  · exact inherits_expression rfl (by simp) fun _ _ _ here =>
      keeps.choice (keeps.exprScope here)
  · simp
    exact fun _ _ => keeps.others

theorem box_inherits (index : Nat) : box.Inherits setting holds (.expr .value) index :=
  meets_box.mpr fun _ _ => keeps.box

theorem parameterAssociation_inherits :
    parameterAssociation.Inherits setting holds .parameter start := by
  have value (index : Nat) :
      (orElse (expr .expression) box).Inherits setting holds (.expr .value) index :=
    ⟨inherits_expression rfl (by simp) fun _ _ _ here => keeps.value here,
      fun _ => box_inherits keeps index⟩
  simp only [Program.Inherits, parameterAssociation, parameterDesignator, meets_bind, meets_attempt,
    meets_nextKind, meets_ite, meets_pure]
  refine ⟨⟨fun _ => ?_, fun _ => ?_⟩, fun _ => ?_⟩
  · refine (meets_take (by decide)).mpr fun _ _ => (meets_take (by decide)).mpr fun _ _ => ?_
    exact (value _).mono fun _ _ => keeps.otherParameters
  · refine meets_staticPart.mpr ⟨fun found _ => ?_, fun found _ => ?_⟩
    · refine (meets_take (by decide)).mpr fun _ _ => ?_
      exact (value _).mono fun _ _ => keeps.named (keeps.operatorSymbol found)
    · refine (meets_take (by decide)).mpr fun _ _ => ?_
      exact (value _).mono fun _ _ => keeps.named (keeps.designator (keeps.identifier found))
  · exact (value start).mono fun _ _ => keeps.positional

theorem callSuffix_inherits : callSuffix.Inherits setting holds .suffix start := by
  simp only [Program.Inherits, callSuffix, meets_bind, meets_attempt]
  refine ⟨⟨by simp, fun _ _ _ here => keeps.slice here⟩, fun _ => ?_⟩
  refine separated_inherits (by decide) (fun _ => ⟨by simp, fun _ _ reads here => ?_⟩)
    fun _ _ => keeps.parameters
  exact ⟨(Rule.stop_of_reads reads).1, here⟩

/-! ### Aggregates -/

theorem ofChoices_inherits {choices : List Choice} {span : Span} {value : Expr}
    (some_ : choices ≠ []) (each : ∀ choice ∈ choices, holds .choice choice)
    (valued : holds (.expr .value) value) :
    holds .association (.of (some (.ofChoices choices span)) value) := by
  unfold Designator.ofChoices
  split
  next => exact keeps.otherComponents valued
  next several =>
    exact keeps.chosen some_ each (fun othersSpan same => several othersSpan same) valued

theorem aggregateAssociation_inherits :
    aggregateAssociation.Inherits setting holds .association start := by
  have value {index : Nat} {goal : Expr → Nat → Prop}
      (reached : ∀ tree stop, holds (.expr .value) tree → goal tree stop) :
      (expr .expression).Meets setting (inheriting setting holds) index goal :=
    inherits_expression rfl (by simp) fun _ _ _ here => reached _ _ (keeps.value here)
  simp only [Program.Inherits, aggregateAssociation, aggregateDesignator, meets_bind, meets_attempt,
    meets_extent, meets_pure, meets_nextKind, meets_ite]
  refine ⟨⟨by simp, fun choices middle _ before => ?_⟩, fun _ => ⟨fun _ => ?_, fun _ => ?_⟩⟩
  · refine (meets_take (by decide)).mpr fun _ _ => ⟨fun _ => ?_, fun _ => ?_⟩
    · exact (box_inherits keeps _).mono fun _ _ => ofChoices_inherits keeps before.1 before.2
    · exact value fun _ _ => ofChoices_inherits keeps before.1 before.2
  · exact (box_inherits keeps _).mono fun _ _ => keeps.component
  · exact value fun _ _ => keeps.component

theorem aggregateContent_inherits :
    aggregateContent.Inherits setting holds .content start := by
  simp only [Program.Inherits, aggregateContent, meets_bind, meets_peek, meets_ite]
  refine ⟨fun _ => ?_, fun _ => ?_⟩
  · refine (meets_take (by decide)).mpr fun _ _ => (meets_take (by decide)).mpr fun _ _ => ?_
    exact keeps.nullRecord
  · have item (index : Nat) :
        (call .aggregateAssociation).Meets setting (inheriting setting holds) index fun part stop =>
          index < stop ∧ holds .association part ∧
            ∃ start stop, Reads setting (.call .aggregateAssociation) start (.done part stop) :=
      ⟨by simp, fun _ _ reads here => ⟨(Rule.stop_of_reads reads).1, here, _, _, reads⟩⟩
    refine separated_inherits (by decide) item fun parts _ some_ each => ?_
    exact keeps.fields some_ (fun part member => (each part member).1)
      fun part member => (each part member).2

theorem aggregate_inherits : aggregate.Inherits setting holds (.expr .expression) start := by
  simp only [Program.Inherits, aggregate, meets_bind, meets_extent, meets_parenthesized,
    meets_attempt]
  refine fun _ _ => ⟨?_, fun _ => ?_⟩
  · refine inherits_expression rfl (by simp) fun ancestor middle _ before => ?_
    refine (meets_take (by decide)).mpr fun _ _ => ?_
    exact (aggregateContent_inherits keeps).mono fun _ _ after _ _ => keeps.extension before after
  · exact (aggregateContent_inherits keeps).mono fun _ _ inner _ _ => keeps.aggregate inner

/-! ### Conditional expressions, allocators and raise expressions -/

theorem ifExpr_inherits : ifExpr.Inherits setting holds (.expr .expression) start := by
  simp only [Program.Inherits, ifExpr, elsifParts, meets_bind, meets_extent]
  refine (meets_take (by decide)).mpr fun _ _ => ?_
  refine consequence_inherits fun condition value _ _ first second => ?_
  refine meets_iterate (fun parts _ => ∀ part ∈ parts, holds .elsif part)
    (by simp) ?_
  intro parts index each
  have ends (stop : Nat) {alternative : Option Expr}
      (inner : ∀ value ∈ alternative, holds (.expr .expression) value) :
      holds (.expr .expression) (.ifExpr condition value parts.reverse alternative
        (setting.extent start stop).span) :=
    keeps.ifExpr first second (fun part member => each part (List.mem_reverse.mp member)) inner
  have last : elsePart.Meets setting (inheriting setting holds) index fun alternative stop =>
      holds (.expr .expression) (.ifExpr condition value parts.reverse alternative
        (setting.extent start stop).span) := by
    simp only [elsePart, meets_bind, meets_nextKind, meets_ite, meets_pure]
    refine ⟨fun _ => (meets_take (by decide)).mpr fun _ _ => ?_, fun _ => ends _ (by simp)⟩
    exact inherits_expression rfl (by simp) fun _ _ _ here => ends _ (by simpa using here)
  simp only [meets_bind, meets_nextKind, meets_ite, meets_pure]
  refine ⟨fun _ => (meets_take (by decide)).mpr fun _ _ => ?_, fun _ => last⟩
  refine consequence_inherits fun condition value stop moved before after => ⟨by omega, ?_⟩
  exact List.forall_mem_cons.mpr ⟨keeps.elsif before after, each⟩

theorem caseExpr_inherits : caseExpr.Inherits setting holds (.expr .expression) start := by
  have parts (index : Nat) :
      caseAlternative.Meets setting (inheriting setting holds) index fun part stop =>
        index < stop ∧ holds .alternative part := by
    simp only [caseAlternative, meets_bind]
    refine (meets_take (by decide)).mpr fun _ _ => ⟨by simp, fun choices middle reads before => ?_⟩
    have moved := (Rule.stop_of_reads reads).1
    refine (meets_take (by decide)).mpr fun _ _ => ?_
    exact inherits_expression rfl (by simp) fun value stop movedOn after =>
      ⟨by omega, keeps.alternative before.1 before.2 after⟩
  simp only [Program.Inherits, caseExpr, meets_bind, meets_extent]
  refine (meets_take (by decide)).mpr fun _ _ => ?_
  refine inherits_expression rfl (by simp) fun subject middle _ before => ?_
  refine (meets_take (by decide)).mpr fun _ _ => ?_
  exact separated_inherits (by decide) parts fun _ _ => keeps.caseExpr before

theorem iterationSource_inherits : iterationSource.Inherits setting holds .source start := by
  simp only [Program.Inherits, iterationSource, constrainedSubtype, meets_bind, meets_orElse]
  refine ⟨⟨by simp, fun mark middle _ before => ?_⟩, fun _ => ?_⟩
  · refine (meets_take (by decide)).mpr fun _ _ => ⟨by simp, fun constraint stop _ after => ?_⟩
    exact keeps.constrained before after
  · exact inherits_scope keeps fun _ _ => keeps.iterated

theorem loopSpec_inherits : loopSpec.Inherits setting holds .loop start := by
  simp only [Program.Inherits, loopSpec, reversed, meets_bind]
  refine (meets_take (by decide)).mpr fun found _ => ?_
  refine (meets_takeOneOf (by decide)).mpr fun _ _ => ?_
  simp only [meets_nextKind, meets_ite, meets_bind, meets_pure]
  refine ⟨fun _ => (meets_take (by decide)).mpr fun _ _ => ?_, fun _ => ?_⟩
  · exact (iterationSource_inherits keeps).mono fun _ _ => keeps.loop (keeps.identifier found)
  · exact (iterationSource_inherits keeps).mono fun _ _ => keeps.loop (keeps.identifier found)

theorem quantified_inherits : quantified.Inherits setting holds (.expr .expression) start := by
  simp only [Program.Inherits, quantified, meets_bind]
  refine (meets_take (by decide)).mpr fun _ _ => (meets_takeOneOf (by decide)).mpr fun _ _ => ?_
  refine ⟨by simp, fun loop middle _ before => (meets_take (by decide)).mpr fun _ _ => ?_⟩
  exact inherits_scope keeps fun _ _ => keeps.quantified before

theorem allocator_inherits : allocator.Inherits setting holds (.expr .expression) start := by
  simp only [Program.Inherits, allocator, meets_bind, meets_attempt, meets_parenthesized]
  refine (meets_take (by decide)).mpr fun _ _ => ⟨fun _ _ => ?_, fun _ => ?_⟩
  · refine ⟨by simp, fun subpool middle _ before _ _ => ⟨by simp, fun designated _ _ after => ?_⟩⟩
    exact keeps.newIn before after
  · exact ⟨by simp, fun designated stop _ after => keeps.new after⟩

theorem raiseExpr_inherits : raiseExpr.Inherits setting holds (.expr .expression) start := by
  simp only [Program.Inherits, raiseExpr, raiseParts, meets_bind, meets_extent, meets_attempt]
  refine (meets_take (by decide)).mpr fun _ _ => ⟨?_, fun _ => keeps.reraise⟩
  refine ⟨by simp, fun exception middle _ named => ?_⟩
  refine ⟨(meets_take (by decide)).mpr fun _ _ => ?_, fun _ => keeps.raiseName named⟩
  exact inherits_expression rfl (by simp) fun message stop _ after =>
    keeps.raiseMessage named after

/-! ### All rules -/

theorem choiceTable_inherits (table : ChoiceTable)
    (label : String) :
    (table.program label).Inherits setting holds (.expr (ExprRule.oneOf table label).form)
      start := by
  have called {rule : ExprRule} {form : ExprForm}
      (allowed : Rule.expr rule ≠ .expr .staticName ∧ Rule.expr rule ≠ .expr .enumerationLiteral)
      (weaker : ∀ tree, holds (.expr rule.form) tree → holds (.expr form) tree) :
      (expr rule).Inherits setting holds (.expr form) start :=
    ⟨allowed, fun tree _ _ here => weaker tree here⟩
  cases table
  all_goals
    simp only [Program.Inherits, ChoiceTable.program, ChoiceTable.alternatives, List.map_cons,
      List.map_nil, meets_bind, meets_firstOf_cons, meets_firstOf_nil, meets_pure, meets_fail,
      implies_true, and_true]
  case primary =>
    exact ⟨called (by simp) fun _ => id, fun _ => ⟨called (by simp) fun _ => id,
      fun _ => ⟨called (by simp) fun _ => keeps.name, fun _ => ⟨called (by simp) fun _ => id,
      fun _ => ⟨called (by simp) fun _ => id, fun _ => ⟨called (by simp) fun _ => id,
      fun _ => ⟨called (by simp) fun _ => id, fun _ => called (by simp) fun _ => id⟩⟩⟩⟩⟩⟩⟩
  case conditional =>
    exact ⟨called (by simp) fun _ => id, fun _ => ⟨called (by simp) fun _ => id,
      fun _ => called (by simp) fun _ => id⟩⟩
  case directName =>
    exact ⟨called (by simp) fun _ => keeps.designator, fun _ => ⟨called (by simp) fun _ => id,
      fun _ => ⟨called (by simp) fun _ => id, fun _ => ⟨called (by simp) fun _ => id,
      fun _ => called (by simp) fun _ => keeps.designator⟩⟩⟩⟩

theorem exprBody_inherits (rule : ExprRule)
    (allowed : (inheriting setting holds).allows (.expr rule) start) :
    rule.body.Inherits setting holds (.expr rule.form) start := by
  have called (rule : ExprRule) {form : ExprForm} (same : rule.form = form)
      (allowed : (inheriting setting holds).allows (.expr rule) start) :
      (Program.expr rule).Inherits setting holds (.expr form) start :=
    ⟨allowed, fun _ _ _ here => same ▸ inheriting_expr.mp here⟩
  cases rule with
  | expression => exact called .logicalChain rfl (by simp)
  | logicalChain => exact logicalChain_inherits keeps
  | relation => exact relation_inherits keeps
  | simpleExpr => exact called .addingChain rfl (by simp)
  | addingChain =>
      exact leftChain_inherits keeps (by decide) (called .unopTerm rfl (by simp)) (by simp) rfl
  | unopTerm => exact unary_inherits keeps (by decide) rfl (by simp) (called .term rfl (by simp))
  | term => exact leftChain_inherits keeps (by decide) (called .factor rfl (by simp)) (by simp) rfl
  | factor => exact unary_inherits keeps (by decide) rfl (by simp) (power_inherits keeps)
  | primary => exact called (.oneOf .primary "primary") rfl (by simp)
  | oneOf table label => exact choiceTable_inherits keeps table label
  | parenthesized => exact parenthesizedExpr_inherits
  | numberLiteral => exact literal_inherits (by decide) keeps.number
  | nullLiteral => exact literal_inherits (by decide) keeps.null
  | characterLiteral => exact literal_inherits (by decide) keeps.character
  | stringLiteral => exact stringLiteral_inherits keeps
  | identifier => exact identifier_inherits keeps
  | name => exact name_inherits keeps
  | directName => exact called (.oneOf .directName "direct_name") rfl (by simp)
  | dereference => exact (Program.meets_take (by decide)).mpr fun _ _ => keeps.dereference
  | keywordAttribute => exact keywordAttribute_inherits keeps
  | attributeDesignator => exact attributeDesignator_inherits
  | aggregate => exact aggregate_inherits keeps
  | discreteRange => exact discreteRange_inherits keeps
  | conditional => exact called (.oneOf .conditional "conditional_expression") rfl (by simp)
  | ifExpr => exact ifExpr_inherits keeps
  | caseExpr => exact caseExpr_inherits keeps
  | quantified => exact quantified_inherits keeps
  | allocator => exact allocator_inherits keeps
  | raiseExpr => exact raiseExpr_inherits keeps
  | staticName => exact absurd rfl allowed.1
  | enumerationLiteral => exact absurd rfl allowed.2

theorem body_inherits (rule : Rule)
    (allowed : (inheriting setting holds).allows rule start) :
    rule.body.Meets setting (inheriting setting holds) start
      ((inheriting setting holds).ensures rule start) := by
  cases rule with
  | expr rule => exact exprBody_inherits keeps rule allowed
  | step rule =>
      cases rule with
      | call => exact callStep_inherits
      | selection => exact selectionStep_inherits
      | attributeRef => exact attributeStep_inherits
      | qualification => exact qualificationStep_inherits
  | choice => exact choice_inherits keeps
  | choiceList => exact choiceList_inherits
  | aggregateAssociation => exact aggregateAssociation_inherits keeps
  | parameterAssociation => exact parameterAssociation_inherits keeps
  | callSuffix => exact callSuffix_inherits keeps
  | loopSpec => exact loopSpec_inherits keeps

end Grammar

/-- What is read has every hereditary property. -/
theorem Hereditary.of_reads (keeps : Hereditary setting holds) {stop : Nat} {tree : Expr}
    (reads : Reads setting (.expr .expression) start (.done tree stop)) :
    holds (.expr .expression) tree :=
  Program.Meets.of_bodies (fun rule _ => Grammar.body_inherits keeps rule)
    (Grammar.inherits_expression rfl (by simp) fun _ _ _ => id) reads

end

end AdaExpressions
