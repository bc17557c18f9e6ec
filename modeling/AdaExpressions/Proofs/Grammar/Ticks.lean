import AdaExpressions.Proofs.Grammar.Derivation

/-!
# What follows a tick

In a phrase a tick stands before an attribute designator, an aggregate or an operand in
parentheses. None of them starts with an apostrophe, so a second tick or a character literal does
not follow.

Result: `Derives.ticksLead`.
-/

namespace AdaExpressions

/-- Tokens of the kind do not start with an apostrophe. -/
def Kind.isPlain (kind : Kind) : Bool :=
  kind != .tick && kind != .char

/-- Behind every tick stands a token that does not start with an apostrophe. -/
def ticksLead : List Kind → Bool
  | [] => true
  | kind :: more => (kind != .tick || more.head?.any Kind.isPlain) && ticksLead more

theorem ticksLead_of_not_mem {kinds : List Kind} (none_ : .tick ∉ kinds) :
    ticksLead kinds = true := by
  induction kinds with
  | nil => rfl
  | cons kind more ih =>
      have here : kind ≠ .tick := fun same => none_ (same ▸ List.mem_cons_self)
      have behind : .tick ∉ more := fun later => none_ (List.mem_cons_of_mem _ later)
      simp [ticksLead, ih behind, here]

theorem ticksLead_append {kinds more : List Kind} (leads : ticksLead kinds = true)
    (leads' : ticksLead more = true) : ticksLead (kinds ++ more) = true := by
  induction kinds with
  | nil => exact leads'
  | cons kind kinds ih =>
      obtain ⟨here, behind⟩ := Bool.and_eq_true_iff.mp leads
      refine Bool.and_eq_true_iff.mpr ⟨?_, ih behind⟩
      rcases Bool.or_eq_true_iff.mp here with other | next
      · rw [other, Bool.true_or]
      · cases kinds with
        | nil => cases next
        | cons second kinds => exact Bool.or_eq_true_iff.mpr (.inr next)

/-- In the tokens a tick leads to a token that does not start with an apostrophe. -/
def TicksLead (text : List Token) : Prop :=
  ticksLead (text.map Token.kind) = true

namespace TicksLead

variable {text more : List Token} {first : Token} {kind : Kind}

theorem append (leads : TicksLead text) (leads' : TicksLead more) : TicksLead (text ++ more) := by
  rw [TicksLead, List.map_append]
  exact ticksLead_append leads leads'

theorem cons (here : first.kind = kind) (other : kind ≠ .tick) (leads : TicksLead text) :
    TicksLead (first :: text) := by
  simpa [TicksLead, ticksLead, here, other] using leads

theorem token (here : first.kind = kind) (other : kind ≠ .tick) : TicksLead [first] :=
  cons here other rfl

theorem tick (plain : (text.map Token.kind).head?.any Kind.isPlain = true)
    (leads : TicksLead text) :
    TicksLead (first :: text) := by
  rw [TicksLead, List.map_cons, ticksLead, plain, Bool.or_true, Bool.true_and]
  exact leads

theorem words {table : List Op} {op : Op} (spells : op.Spells table text) : TicksLead text := by
  have words : .tick ∉ op.words := by cases op <;> decide
  rw [TicksLead, spells.2]
  exact ticksLead_of_not_mem words

end TicksLead

/-- An attribute designator is a single word. -/
theorem Derives.isPlain_attribute {text : List Token} {expr : Expr}
    (derives : Derives (.expr .attribute) text expr) :
    (text.map Token.kind).head?.any Kind.isPlain = true := by
  cases derives with
  | reservedAttribute derives =>
      cases derives with
      | @attributeWord token known =>
          have plain : ∀ kind ∈ [Kind.kwAccess, .kwDelta, .kwDigits, .kwMod, .kwRange],
              kind.isPlain = true := by decide
          exact plain _ known
  | namedAttribute derives =>
      cases derives with
      | identifier known => simp [known, Kind.isPlain]

theorem Derives.isPlain_aggregate {text : List Token} {expr : Expr}
    (derives : Derives (.expr .aggregate) text expr) :
    (text.map Token.kind).head?.any Kind.isPlain = true := by
  cases derives with
  | plainAggregate opened => simp [opened, Kind.isPlain]
  | extension opened => simp [opened, Kind.isPlain]

/-- In every phrase a tick leads to what does not start with an apostrophe. -/
theorem Derives.ticksLead {phrase : Phrase} {text : List Token} {node : phrase.Node}
    (derives : Derives phrase text node) : TicksLead text := by
  induction derives with
  | relation _ ih | simpleExpr _ ih | unopTerm _ ih | term _ ih | factor _ ih | primary _ ih =>
      exact ih
  | name _ ih | allocator _ ih | conditional _ ih | raise _ ih | aggregate _ ih => exact ih
  | directName _ ih | simpleName _ ih | attributeName _ ih | reservedAttribute _ ih
  | namedAttribute _ ih | staticName _ ih => exact ih
  | value _ ih | range _ ih | expression _ ih => exact ih
  | ifConditional _ ih | caseConditional _ ih | quantifiedConditional _ ih | iterated _ ih =>
      exact ih
  | slice _ ih | parameters _ ih | parameter _ ih | positional _ ih | parameterName _ ih => exact ih
  | exprChoice _ ih | choice _ ih | fields _ ih | association _ ih | component _ ih => exact ih
  | caseAlternatives _ ih => exact ih
  | number known | null known | stringLiteral known | characterLiteral known | dereference known
  | identifier known | enumerationLiteral known | staticIdentifier known | staticSymbol known
  | box known | parameterOthers known | others known | reraise known =>
      exact .token known (by decide)
  | attributeWord known =>
      have other : ∀ kind ∈ [Kind.kwAccess, .kwDelta, .kwDigits, .kwMod, .kwRange],
          kind ≠ .tick := by decide
      exact .token rfl (other _ known)
  -- Operators.
  | logical _ spells _ ih ihRight | comparison _ spells _ ih ihRight | adding _ spells _ ih ihRight
  | multiplying _ spells _ ih ihRight | power _ spells _ ih ihRight
  | membership _ spells _ ih ihRight => exact (ih.append (.words spells)).append ihRight
  | signed spells _ ih | highestUnary spells _ ih => exact .append (.words spells) ih
  -- Parts in brackets.
  | parenthesized opened _ closed ih | parenthesizedConditional opened _ closed ih
  | callStep opened _ closed ih | plainAggregate opened _ closed ih =>
      exact (ih.cons opened (by decide)).append (.token closed (by decide))
  | extension opened _ with_ _ closed ih ihContent =>
      exact ((ih.cons opened (by decide)).append (ihContent.cons with_ (by decide))).append
        (.token closed (by decide))
  -- Names.
  | extended _ _ ih ihStep => exact ih.append ihStep
  | selection dot _ ih => exact ih.cons dot (by decide)
  | attributeStep _ designator ih => exact ih.tick designator.isPlain_attribute
  | attributeCall _ designator opened _ closed ih ihArguments =>
      have arguments := ihArguments.cons opened (by decide)
      exact ((ih.tick designator.isPlain_attribute).append arguments).append
        (.token closed (by decide))
  | qualification _ opened _ closed ih =>
      have operand := ih.cons opened (by decide)
      exact (operand.tick (by simp [opened, Kind.isPlain])).append (.token closed (by decide))
  | aggregateQualification _ aggregate ih => exact ih.tick aggregate.isPlain_aggregate
  -- Parts with one token between them.
  | staticSelection _ mark _ ih ihMore | moreParameters _ mark _ ih ihMore
  | named _ mark _ ih ihMore | discreteRange _ mark _ ih ihMore | moreChoices _ mark _ ih ihMore
  | moreAssociations _ mark _ ih ihMore | chosen _ mark _ ih ihMore
  | moreAlternatives _ mark _ ih ihMore | consequence _ mark _ ih ihMore
  | elsif _ mark _ ih ihMore | constrained _ mark _ ih ihMore =>
      exact ih.append (ihMore.cons mark (by decide))
  | nullRecord null record => exact .cons null (by decide) (.token record (by decide))
  -- Conditional expressions.
  | noElsif | noElse => exact rfl
  | «else» word _ ih => exact ih.cons word (by decide)
  | ifExpr word _ _ _ ih ihElsifs ihElse =>
      exact ((ih.cons word (by decide)).append ihElsifs).append ihElse
  | caseExpr word _ mark _ ih ihMore | caseAlternative word _ mark _ ih ihMore =>
      exact (ih.cons word (by decide)).append (ihMore.cons mark (by decide))
  | @quantified _ _ _ _ _ quantifier _ _ word quantity _ arrow _ ih ihBody =>
      have other : quantifier.word ≠ .tick := by cases quantifier <;> decide
      exact ((ih.cons quantity other).cons word (by decide)).append (ihBody.cons arrow (by decide))
  | @loopSpec _ _ _ iteration _ token word _ ih =>
      have other : iteration.word ≠ .tick := by cases iteration <;> decide
      exact (ih.cons word other).cons token (by decide)
  | @reversedLoopSpec _ _ _ _ iteration _ token word reverse _ ih =>
      have other : iteration.word ≠ .tick := by cases iteration <;> decide
      exact ((ih.cons reverse (by decide)).cons word other).cons token (by decide)
  -- Allocators and raise expressions.
  | new word _ ih | raiseName word _ ih => exact ih.cons word (by decide)
  | newIn word opened _ closed _ ih ihDesignated =>
      exact ((ih.cons opened (by decide)).cons word (by decide)).append
        (ihDesignated.cons closed (by decide))
  | raiseMessage word _ with_ _ ih ihMessage =>
      exact (ih.cons word (by decide)).append (ihMessage.cons with_ (by decide))

end AdaExpressions
