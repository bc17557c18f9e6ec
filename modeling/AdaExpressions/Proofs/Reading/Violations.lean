import AdaExpressions.Proofs.Reading.Choosing

/-!
# Where violations stand

A violation is raised at the first token of the operator that it objects to. Only two rules forbid
anything, each what it has just read the words of; the others are quiet and hand a fatal failure on
as it is.

Results: `Program.pointsAt_body`, `Reads.operatorFrom`.
-/

namespace AdaExpressions

/-- The operator that a violation objects to; of two the second. -/
def Violation.operator : Violation → Op
  | .chained operator => operator
  | .mixed _ second => second

/-- The words of the operator stand in the buffer from the token on. -/
def Setting.OperatorFrom (setting : Setting) (op : Op) (token : Token) : Prop :=
  ∃ place, token = setting.buffer.token place ∧ setting.WordsAt op.words place

namespace Program

/-- The program forbids nothing by itself. -/
@[simp] def Quiet : {α : Type} → Program α → Prop
  | _, .andThen first next => first.Quiet ∧ ∀ value, (next value).Quiet
  | _, .fail objection => objection.isFatal = false
  | _, .forbid _ _ => False
  | _, .attempt part => part.Quiet
  | _, .extent part => part.Quiet
  | _, .iterate _ step => ∀ value, (step value).Quiet
  | _, _ => True

/-- What the program forbids by itself, it forbids where the operator stands. -/
def PointsAt (setting : Setting) : {α : Type} → Program α → Prop
  | _, .andThen first next =>
      first.PointsAt setting ∧ ∀ value index stop, Reads setting first index (.done value stop) →
        (next value).PointsAt setting
  | _, .fail objection => objection.isFatal = false
  | _, .forbid violation token => setting.OperatorFrom violation.operator token
  | _, .attempt part => part.PointsAt setting
  | _, .extent part => part.PointsAt setting
  | _, .iterate _ step => ∀ value, (step value).PointsAt setting
  | _, _ => True

theorem Quiet.pointsAt {setting : Setting} {α : Type} {program : Program α}
    (quiet : program.Quiet) : program.PointsAt setting := by
  induction program with
  | andThen first next ihFirst ihNext =>
      exact ⟨ihFirst quiet.1, fun value _ _ _ => ihNext value (quiet.2 value)⟩
  | fail => exact quiet
  | forbid => exact quiet.elim
  | attempt part ih => exact ih quiet
  | extent part ih => exact ih quiet
  | iterate value step ih => exact fun value => ih value (quiet value)
  | yield | take | peek | remember | call => trivial

end Program

section

open Program Grammar

variable {setting : Setting} {α β : Type}

/-! ### Quiet programs -/

namespace Program

@[simp] theorem quiet_pure {value : α} : (pure value : Program α).Quiet ↔ True :=
  Iff.rfl

@[simp] theorem quiet_bind {first : Program α} {next : α → Program β} :
    (first >>= next).Quiet ↔ first.Quiet ∧ ∀ value, (next value).Quiet :=
  Iff.rfl

@[simp] theorem quiet_ite {condition : Prop} [Decidable condition] {yes no : Program α} :
    (if condition then yes else no).Quiet ↔
      (condition → yes.Quiet) ∧ (¬ condition → no.Quiet) := by
  split <;> simp [*]

@[simp] theorem quiet_orElse {first second : Program α} :
    (orElse first second).Quiet ↔ first.Quiet ∧ second.Quiet := by
  simp [orElse, Option.forall]

@[simp] theorem quiet_firstOf {parts : List (Program α)} :
    (firstOf parts).Quiet ↔ ∀ part ∈ parts, part.Quiet := by
  induction parts with
  | nil => simp [firstOf]
  | cons part more ih => simp [firstOf, ih, Option.forall]

@[simp] theorem quiet_parenthesized {inner : Program α} :
    (parenthesized inner).Quiet ↔ inner.Quiet := by
  simp [parenthesized]

@[simp] theorem quiet_separated {separator : Kind} {item : Program α} :
    (separated separator item).Quiet ↔ item.Quiet := by
  simp only [separated, nextKind, Option.forall, quiet_bind, quiet_pure, quiet_ite, Quiet]
  exact ⟨And.left, fun quiet => by simp [quiet]⟩

@[simp] theorem quiet_takeAll (kinds : List Kind) : (takeAll kinds).Quiet := by
  induction kinds with
  | nil => trivial
  | cons kind more ih => exact ⟨trivial, fun _ => ih⟩

@[simp] theorem quiet_takeOperator (op : Op) : (takeOperator op).Quiet :=
  ⟨quiet_takeAll op.words, fun _ => trivial⟩

@[simp] theorem quiet_attemptRight {op : Op} {right : Program α} :
    (attemptRight op right).Quiet ↔ right.Quiet :=
  ⟨fun quiet => (quiet.2 ⟨default, default⟩).1,
    fun quiet => ⟨quiet_takeOperator op, fun _ => ⟨quiet, fun _ => trivial⟩⟩⟩

theorem quiet_choice (table : ChoiceTable) (label : String) : (table.program label).Quiet := by
  have calls : ∀ part ∈ table.alternatives.map fun alternative => expr alternative.2,
      part.Quiet := by
    intro part member
    obtain ⟨alternative, _, rfl⟩ := List.mem_map.mp member
    trivial
  exact ⟨quiet_firstOf.mpr calls, fun value => by cases value <;> trivial⟩

end Program

/-! ### Operators that were read -/

theorem wordsAt_of_takeAll {kinds : List Kind} {index stop : Nat} (more : .eof ∉ kinds)
    (reads : Reads setting (takeAll kinds) index (.done () stop)) :
    setting.WordsAt kinds index := by
  induction kinds generalizing index with
  | nil => trivial
  | cons kind rest ih =>
      simp only [List.mem_cons, not_or] at more
      rcases reads.readsBy with ⟨token, middle, first, next⟩ | ⟨_, _, same⟩
      · rcases first.readsBy with ⟨found, same⟩ | ⟨_, same⟩
        · have open_ : setting.buffer.kind index ≠ .eof := found ▸ Ne.symm more.1
          obtain ⟨-, rfl⟩ := Reading.done.inj same
          rw [Buffer.next_of_ne_eof open_] at next
          exact ⟨found, ih more.2 next⟩
        · cases same
      · cases same

theorem operatorFrom_of_takeOperator {op : Op} {index stop : Nat} {words : Extent}
    (reads : Reads setting (takeOperator op) index (.done words stop)) :
    setting.OperatorFrom op words.first := by
  rcases reads.readsBy with ⟨pair, middle, whole, yields⟩ | ⟨_, _, same⟩
  · rcases whole.readsBy with ⟨value, stop', inner, same⟩ | ⟨_, _, same⟩
    · obtain ⟨rfl, rfl⟩ := Reading.done.inj same
      obtain ⟨rfl, -⟩ := Reading.done.inj yields.readsBy
      exact ⟨index, rfl, wordsAt_of_takeAll op.eof_not_mem_words inner⟩
    · cases same
  · cases same

/-- The words in front of a right operand are those of its operator. -/
theorem operatorFrom_of_attemptRight {op : Op} {right : Program α} {index stop : Nat}
    {words : Extent} {value : α}
    (reads : Reads setting (attemptRight op right) index (.done (some (words, value)) stop)) :
    setting.OperatorFrom op words.first := by
  rcases reads.readsBy with ⟨pair, stop', part, same⟩ | ⟨_, _, ⟨_, same⟩ | ⟨_, same⟩⟩
  · obtain ⟨values, rfl⟩ := Reading.done.inj same
    obtain rfl := Option.some.inj values
    rcases part.readsBy with ⟨taken, middle, operator, rest⟩ | ⟨_, _, same⟩
    · rcases rest.readsBy with ⟨operand, after, _, yields⟩ | ⟨_, _, same⟩
      · obtain ⟨pair, -⟩ := Reading.done.inj yields.readsBy
        obtain ⟨rfl, -⟩ := Prod.mk.inj pair
        exact operatorFrom_of_takeOperator operator
      · cases same
    · cases same
  · cases same
  · cases same

/-- Behind a right operand a program may forbid the operator in front of it. -/
theorem pointsAt_attemptRight {op : Op} {right : Program α}
    {next : Option (Extent × α) → Program β} (quiet : right.Quiet)
    (missing : (next none).PointsAt setting)
    (found : ∀ words value, setting.OperatorFrom op words.first →
      (next (some (words, value))).PointsAt setting) :
    (attemptRight op right >>= next).PointsAt setting := by
  refine ⟨Quiet.pointsAt (quiet_attemptRight.mpr quiet), fun operand _ _ reads => ?_⟩
  cases operand with
  | none => exact missing
  | some operand => exact found operand.1 operand.2 (operatorFrom_of_attemptRight reads)

theorem pointsAt_forbidChained (compared : Compared) {op : Op} {words : Extent}
    (stands : setting.OperatorFrom op words.first) :
    (forbidChained compared op words).PointsAt setting := by
  unfold forbidChained
  split
  next => trivial
  next => exact stands

theorem pointsAt_logicalChain : logicalChain.PointsAt setting := by
  refine ⟨trivial, fun operand _ _ _ => ⟨?_, fun _ _ _ _ => trivial⟩⟩
  rintro ⟨left, previous⟩
  refine ⟨⟨trivial, fun _ _ _ _ => trivial⟩, fun op _ _ _ => ?_⟩
  cases op with
  | none => trivial
  | some op =>
      refine pointsAt_attemptRight trivial trivial fun words right stands => ?_
      cases previous with
      | none => trivial
      | some previous =>
          show PointsAt setting (if previous ≠ op then _ else _)
          split
          next => exact ⟨stands, fun _ _ _ _ => trivial⟩
          next => trivial

theorem pointsAt_relation : relation.PointsAt setting := by
  refine ⟨trivial, fun operand _ _ _ => ⟨?_, fun last _ _ _ => ⟨?_, fun _ _ _ _ => trivial⟩⟩⟩
  · rintro ⟨compared, last⟩
    refine ⟨⟨trivial, fun _ _ _ _ => trivial⟩, fun op _ _ _ => ?_⟩
    cases op with
    | none => trivial
    | some op =>
        refine pointsAt_attemptRight trivial trivial fun words right stands => ?_
        exact ⟨pointsAt_forbidChained _ stands, fun _ _ _ _ => trivial⟩
  · refine ⟨⟨trivial, fun _ _ _ _ => trivial⟩, fun op _ _ _ => ?_⟩
    cases op with
    | none => trivial
    | some op =>
        refine pointsAt_attemptRight (by simp) trivial fun words right stands => ?_
        exact ⟨pointsAt_forbidChained _ stands, fun _ _ _ _ => trivial⟩

/-! ### The rules -/

theorem Program.pointsAt_exprBody (rule : ExprRule) : rule.body.PointsAt setting := by
  cases rule with
  | oneOf table label => exact (quiet_choice table label).pointsAt
  | logicalChain => exact pointsAt_logicalChain
  | relation => exact pointsAt_relation
  | _ =>
      refine Quiet.pointsAt ?_
      simp only [ExprRule.body, expr, nextOperator, nextKind, takeOneOf, leftChain,
        unary, chainStep, addingChain, unopTerm, term, factor, power,
        literal, simpleName, ident, dereference, keywordAttribute, attributeDesignator, name,
        staticPart, staticName, discreteRange, aggregate, aggregateContent, parenthesizedExpr,
        ifExpr, consequence, elsifParts, elsePart, caseExpr, caseAlternative, quantified,
        allocator, raiseExpr, raiseParts, quiet_bind, quiet_pure, quiet_ite, quiet_orElse,
        quiet_firstOf, quiet_parenthesized, quiet_separated, quiet_takeOperator,
        quiet_attemptRight, Quiet, Objection.isFatal, Option.forall, List.mem_map,
        forall_exists_index, and_imp, forall_apply_eq_imp_iff₂, implies_true, and_self]

theorem Program.pointsAt_body (rule : Rule) : rule.body.PointsAt setting := by
  cases rule with
  | expr rule => exact pointsAt_exprBody rule
  | step rule =>
      refine Quiet.pointsAt ?_
      cases rule <;>
        simp only [Rule.body, StepRule.body, callStep, selectionStep, attributeStep,
          qualificationStep, expr, quiet_bind, quiet_pure, quiet_orElse, quiet_parenthesized, Quiet,
          implies_true, and_self]
  | _ =>
      refine Quiet.pointsAt ?_
      simp only [Rule.body, expr, nextKind, takeOneOf, choice, choiceList, box, staticPart, ident,
        aggregateAssociation, aggregateDesignator, parameterAssociation, parameterDesignator,
        callSuffix, loopSpec, reversed, iterationSource, constrainedSubtype, quiet_bind, quiet_pure,
        quiet_ite, quiet_orElse, quiet_firstOf, quiet_separated, Quiet, Objection.isFatal,
        Option.forall, List.mem_cons, List.not_mem_nil, or_false, forall_eq_or_imp, forall_eq,
        implies_true, and_self]

/-! ### Readings -/

/-- A fatal failure stands where the operator does that it objects to. -/
theorem Reads.operatorFrom {program : Program α} {index : Nat} {token : Token}
    {violation : Violation}
    (reads : Reads setting program index (.failed ⟨token, .violation violation⟩))
    (points : program.PointsAt setting) : setting.OperatorFrom violation.operator token := by
  generalize failed : Reading.failed ⟨token, .violation violation⟩ = reading at reads
  induction reads with
  | andThen first _ _ ihNext => exact ihNext (points.2 _ _ _ first) failed
  | andThenFailed _ ih => cases failed; exact ih points.1 rfl
  | fail => cases failed; cases points
  | forbidFailed => cases failed; exact points
  | attemptFailed _ _ ih => cases failed; exact ih points rfl
  | extentFailed _ ih => cases failed; exact ih points rfl
  | iterateNext _ _ _ ihRest => exact ihRest points failed
  | iterateFailed _ ih => cases failed; exact ih (points _) rfl
  | remember _ ih => exact ih trivial failed
  | call _ ih => exact ih (Program.pointsAt_body _) failed
  | yield | take | takeFailed | peek | forbid | attempt | attemptNone | extent | iterateStop =>
      cases failed

end

end AdaExpressions
