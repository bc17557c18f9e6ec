import AdaExpressions.Parser.Basic
import AdaExpressions.Proofs.Reading.Progress

/-!
# Runs read what programs read

A run keeps results, notes failures and has limits; what a program reads knows of none of these.
Here the two are tied together: as long as every result kept so far is what its rule reads, a run
gives what the program reads, keeps only such results, and notes the failures that `Notes` tells;
and no run at the top of a reading exhausts its limits.

Results: `Program.run_follows`, `Rule.run_ne_exhausted`, `Rule.read_cases` (a rule is read or fails as
its program does), `parse_accepted_iff`.
-/

namespace AdaExpressions

/-- A recoverable failure that is noted while a program is read. -/
inductive Notes (setting : Setting) : {α : Type} → Program α → Nat → Failure → Prop
  | first {α β : Type} {first : Program α} {next : α → Program β} {index : Nat}
      {failure : Failure} :
      Notes setting first index failure → Notes setting (.andThen first next) index failure
  | next {α β : Type} {first : Program α} {next : α → Program β} {index middle : Nat} {value : α}
      {failure : Failure} :
      Reads setting first index (.done value middle) →
      Notes setting (next value) middle failure → Notes setting (.andThen first next) index failure
  | within {α : Type} {part : Program α} {index : Nat} {failure : Failure} :
      Notes setting part index failure → Notes setting (.attempt part) index failure
  | attempt {α : Type} {part : Program α} {index : Nat} {failure : Failure} :
      Reads setting part index (.failed failure) → failure.isFatal = false →
      Notes setting (.attempt part) index failure
  | extent {α : Type} {part : Program α} {index : Nat} {failure : Failure} :
      Notes setting part index failure → Notes setting (.extent part) index failure
  | round {σ : Type} {value : σ} {step : σ → Program (Option σ)} {index : Nat}
      {failure : Failure} :
      Notes setting (step value) index failure →
      Notes setting (.iterate value step) index failure
  | later {σ : Type} {value next : σ} {step : σ → Program (Option σ)} {index middle : Nat}
      {failure : Failure} :
      Reads setting (step value) index (.done (some next) middle) →
      Notes setting (.iterate next step) middle failure →
      Notes setting (.iterate value step) index failure
  | remember {key : MemoKey} {rule : ExprRule} {index : Nat} {failure : Failure} :
      Notes setting (.call (.expr rule)) index failure →
      Notes setting (.remember key rule) index failure
  | call {rule : Rule} {index : Nat} {failure : Failure} :
      Notes setting rule.body index failure → Notes setting (.call rule) index failure

/-- One step into the definition of `Notes`. -/
def Program.NotesBy (setting : Setting) : {α : Type} → Program α → Nat → Failure → Prop
  | _, .andThen first next, index, failure =>
      Notes setting first index failure ∨
      ∃ value middle, Reads setting first index (.done value middle) ∧
        Notes setting (next value) middle failure
  | _, .attempt part, index, failure =>
      Notes setting part index failure ∨
      (Reads setting part index (.failed failure) ∧ failure.isFatal = false)
  | _, .extent part, index, failure => Notes setting part index failure
  | _, .iterate value step, index, failure =>
      Notes setting (step value) index failure ∨
      ∃ next middle, Reads setting (step value) index (.done (some next) middle) ∧
        Notes setting (.iterate next step) middle failure
  | _, .remember _ rule, index, failure => Notes setting (.call (.expr rule)) index failure
  | _, .call rule, index, failure => Notes setting rule.body index failure
  | _, _, _, _ => False

theorem notes_iff {setting : Setting} {α : Type} {program : Program α} {index : Nat}
    {failure : Failure} :
    Notes setting program index failure ↔ program.NotesBy setting index failure := by
  constructor
  · intro notes
    cases notes with
    | first first => exact .inl first
    | next first next => exact .inr ⟨_, _, first, next⟩
    | within part => exact .inl part
    | attempt part recoverable => exact .inr ⟨part, recoverable⟩
    | extent part => exact part
    | round step => exact .inl step
    | later step rest => exact .inr ⟨_, _, step, rest⟩
    | remember call => exact call
    | call body => exact body
  · intro by_
    cases program with
    | andThen first next =>
        rcases by_ with first | ⟨_, _, first, next⟩
        · exact .first first
        · exact .next first next
    | attempt part =>
        rcases by_ with part | ⟨part, recoverable⟩
        · exact .within part
        · exact .attempt part recoverable
    | extent part => exact .extent by_
    | iterate value step =>
        rcases by_ with step | ⟨_, _, step, rest⟩
        · exact .round step
        · exact .later step rest
    | remember key rule => exact .remember by_
    | call rule => exact .call by_
    | _ => exact by_.elim

/-! ### Kept results -/

/-- The rule whose results are kept under a key. -/
def MemoKey.rule : MemoKey → ExprRule
  | .expression => .logicalChain
  | .simpleExpr => .addingChain
  | .primary => .oneOf .primary "primary"

/-- Each result is kept under the key of its rule. -/
@[simp] def Program.Keyed : {α : Type} → Program α → Prop
  | _, .andThen first next => first.Keyed ∧ ∀ value, (next value).Keyed
  | _, .attempt part => part.Keyed
  | _, .extent part => part.Keyed
  | _, .iterate _ step => ∀ value, (step value).Keyed
  | _, .remember key rule => rule = key.rule
  | _, _ => True

section

open Program Grammar

variable {α β : Type}

@[simp] theorem Program.keyed_pure {value : α} : (pure value : Program α).Keyed ↔ True :=
  Iff.rfl

@[simp] theorem Program.keyed_bind {first : Program α} {next : α → Program β} :
    (first >>= next).Keyed ↔ first.Keyed ∧ ∀ value, (next value).Keyed :=
  Iff.rfl

@[simp] theorem Program.keyed_ite {condition : Prop} [Decidable condition] {yes no : Program α} :
    (if condition then yes else no).Keyed ↔
      (condition → yes.Keyed) ∧ (¬ condition → no.Keyed) := by
  split <;> simp [*]

@[simp] theorem Program.keyed_orElse {first second : Program α} :
    (orElse first second).Keyed ↔ first.Keyed ∧ second.Keyed := by
  simp [orElse, Option.forall]

@[simp] theorem Program.keyed_firstOf {parts : List (Program α)} :
    (firstOf parts).Keyed ↔ ∀ part ∈ parts, part.Keyed := by
  induction parts with
  | nil => simp [firstOf]
  | cons part more ih => simp [firstOf, ih, Option.forall]

@[simp] theorem Program.keyed_parenthesized {inner : Program α} :
    (parenthesized inner).Keyed ↔ inner.Keyed := by
  simp [parenthesized]

@[simp] theorem Program.keyed_separated {separator : Kind} {item : Program α} :
    (separated separator item).Keyed ↔ item.Keyed := by
  simp only [separated, nextKind, Option.forall, keyed_bind, keyed_pure, keyed_ite, Keyed]
  exact ⟨And.left, fun keyed => by simp [keyed]⟩

@[simp] theorem Program.keyed_takeAll (kinds : List Kind) : (takeAll kinds).Keyed := by
  induction kinds with
  | nil => trivial
  | cons kind more ih => exact ⟨trivial, fun _ => ih⟩

@[simp] theorem Program.keyed_takeOperator (op : Op) : (takeOperator op).Keyed :=
  ⟨keyed_takeAll op.words, fun _ => trivial⟩

@[simp] theorem Program.keyed_attemptRight {op : Op} {right : Program α} :
    (attemptRight op right).Keyed ↔ right.Keyed :=
  ⟨fun keyed => (keyed.2 ⟨default, default⟩).1,
    fun keyed => ⟨keyed_takeOperator op, fun _ => ⟨keyed, fun _ => trivial⟩⟩⟩

theorem Program.keyed_choice (table : ChoiceTable) (label : String) :
    (table.program label).Keyed := by
  have calls : ∀ part ∈ table.alternatives.map fun alternative => expr alternative.2,
      part.Keyed := by
    intro part member
    obtain ⟨alternative, _, rfl⟩ := List.mem_map.mp member
    trivial
  exact ⟨keyed_firstOf.mpr calls, fun value => by cases value <;> trivial⟩

theorem Program.keyed_exprBody (rule : ExprRule) : rule.body.Keyed := by
  cases rule with
  | oneOf table label => exact keyed_choice table label
  | relation =>
      simp only [ExprRule.body, relation, relationFrom, comparisonStep, membershipTest,
        forbidChained, nextOperator, expr, Option.forall, keyed_bind, keyed_pure, keyed_ite,
        keyed_attemptRight, Keyed, implies_true, and_self]
  | _ =>
      simp only [ExprRule.body, expr, MemoKey.rule, nextOperator, nextKind, takeOneOf, leftChain,
        unary, logicalChain, logicalStep, chainStep, addingChain, unopTerm, term, factor, power,
        literal, simpleName, ident, dereference, keywordAttribute, attributeDesignator, name,
        staticPart, staticName, discreteRange, aggregate, aggregateContent, parenthesizedExpr,
        ifExpr, consequence, elsifParts, elsePart, caseExpr, caseAlternative, quantified,
        allocator, raiseExpr, raiseParts, keyed_bind, keyed_pure, keyed_ite, keyed_orElse,
        keyed_firstOf, keyed_parenthesized, keyed_separated, keyed_takeOperator,
        keyed_attemptRight, Keyed, Option.forall, Prod.forall, List.mem_map, forall_exists_index,
        and_imp, forall_apply_eq_imp_iff₂, implies_true, and_self]

theorem Program.keyed_body (rule : Rule) : rule.body.Keyed := by
  cases rule with
  | expr rule => exact keyed_exprBody rule
  | step rule =>
      cases rule <;>
        simp only [Rule.body, StepRule.body, callStep, selectionStep, attributeStep,
          qualificationStep, expr, keyed_bind, keyed_pure, keyed_orElse, keyed_parenthesized, Keyed,
          implies_true, and_self]
  | _ =>
      simp only [Rule.body, expr, nextKind, takeOneOf, choice, choiceList, box, staticPart, ident,
        aggregateAssociation, aggregateDesignator, parameterAssociation, parameterDesignator,
        callSuffix, loopSpec, reversed, iterationSource, constrainedSubtype, keyed_bind, keyed_pure,
        keyed_ite, keyed_orElse, keyed_firstOf, keyed_separated, Keyed, Option.forall,
        List.mem_cons, List.not_mem_nil, or_false, forall_eq_or_imp, forall_eq, implies_true,
        and_self]

end

def Remembered.reading : Remembered → Reading Expr
  | .tree expr stop => .done expr stop
  | .failure kept => .failed kept

/-- Every kept result is what the rule of its key reads, and what the rule notes is noted. -/
def State.Agrees (state : State) (setting : Setting) : Prop :=
  ∀ key index result, state.memo.find? key index = some result →
    Reads setting (.call (.expr key.rule)) index result.reading ∧
      ∀ failure, Notes setting (.call (.expr key.rule)) index failure → failure ∈ state.failures

/-- What holds of the state after a program, whether it failed or not: only agreeing results are
kept, and just what the program notes is noted. -/
structure State.Leads (before : State) (setting : Setting) {α : Type} (program : Program α)
    (after : State) : Prop where
  agrees : after.Agrees setting
  notes : ∀ failure,
    failure ∈ after.failures ↔
      failure ∈ before.failures ∨ Notes setting program before.index failure
  within : before.index < setting.buffer.size → after.index < setting.buffer.size

/-- An outcome that is not exhausted gives what the program reads. -/
def Outcome.Follows (setting : Setting) {α : Type} (program : Program α) (before : State) :
    Outcome α → Prop
  | .done value after =>
      Reads setting program before.index (.done value after.index) ∧
        before.Leads setting program after
  | .failed failure after =>
      Reads setting program before.index (.failed failure) ∧ before.Leads setting program after
  | .exhausted => True

section

variable {setting : Setting} {α β : Type}

theorem State.Agrees.moveTo {state : State} (agrees : state.Agrees setting) (index : Nat) :
    (state.moveTo index).Agrees setting :=
  agrees

theorem State.Agrees.note {state : State} (agrees : state.Agrees setting) (failure : Failure) :
    (state.note failure).Agrees setting := fun key index result found =>
  ⟨(agrees key index result found).1, fun noted notes =>
    List.mem_cons_of_mem _ ((agrees key index result found).2 noted notes)⟩

/-- Nothing is noted by a program that stands still. -/
theorem State.Leads.refl {state : State} {program : Program α} (agrees : state.Agrees setting)
    (quiet : ∀ failure, ¬ Notes setting program state.index failure) :
    state.Leads setting program state :=
  ⟨agrees, fun failure => by simp [quiet failure], id⟩

theorem State.Leads.andThen {before middle after : State} {first : Program α}
    {next : α → Program β} {value : α}
    (leadsFirst : before.Leads setting first middle)
    (reads : Reads setting first before.index (.done value middle.index))
    (leadsNext : middle.Leads setting (next value) after) :
    before.Leads setting (.andThen first next) after := by
  refine ⟨leadsNext.agrees, fun failure => ?_, leadsNext.within ∘ leadsFirst.within⟩
  rw [leadsNext.notes, leadsFirst.notes]
  constructor
  · rintro ((old | noted) | noted)
    · exact .inl old
    · exact .inr (.first noted)
    · exact .inr (.next reads noted)
  · rintro (old | notes)
    · exact .inl (.inl old)
    rcases notes_iff.mp notes with noted | ⟨other, place, again, noted⟩
    · exact .inl (.inr noted)
    · cases reads.unique again
      exact .inr noted

theorem State.Leads.of_iff {before after : State} {program : Program α} {other : Program β}
    (leads : before.Leads setting program after)
    (same : ∀ failure, Notes setting other before.index failure ↔
      Notes setting program before.index failure) : before.Leads setting other after :=
  ⟨leads.agrees, fun failure => by rw [leads.notes, same], leads.within⟩

/-- A program stays where it is or moves on within the buffer. -/
theorem Reads.stop_bounds {program : Program α} {index stop : Nat} {value : α}
    (reads : Reads setting program index (.done value stop)) :
    index ≤ stop ∧ (stop = index ∨ stop < setting.buffer.size) := by
  generalize result : Reading.done value stop = reading at reads
  induction reads generalizing stop with
  | yield => cases result; exact ⟨Nat.le_refl _, .inl rfl⟩
  | andThen _ _ ihFirst ihNext =>
      have first := ihFirst rfl
      have next := ihNext result
      omega
  | take =>
      cases result
      refine ⟨Buffer.le_next _ _, ?_⟩
      unfold Buffer.next
      split
      next => exact .inl rfl
      next more => exact .inr (Buffer.succ_lt_size_of_ne_eof more)
  | peek => cases result; exact ⟨Nat.le_refl _, .inl rfl⟩
  | forbid _ => cases result; exact ⟨Nat.le_refl _, .inl rfl⟩
  | attempt _ ih => cases result; exact ih rfl
  | attemptNone _ _ => cases result; exact ⟨Nat.le_refl _, .inl rfl⟩
  | extent _ ih => cases result; exact ih rfl
  | iterateStop _ ih => cases result; exact ih rfl
  | iterateNext _ _ ihStep ihRest =>
      have step := ihStep rfl
      have rest := ihRest result
      omega
  | remember _ ih => exact ih result
  | call _ ih => exact ih result
  | _ => cases result

/-! ### What an instruction gives -/

theorem Outcome.attempt_follows {part : Program α} {run : State → Outcome α} {state : State}
    (follows : (run state).Follows setting part state) :
    (Outcome.attempt run state).Follows setting (.attempt part) state := by
  unfold Outcome.attempt
  split
  next value after found =>
    rw [found] at follows
    refine ⟨.attempt follows.1, follows.2.of_iff fun failure => notes_iff.trans ?_⟩
    refine ⟨fun notes => notes.elim id fun failed => ?_, .inl⟩
    cases follows.1.unique failed.1
  next failure after found =>
    rw [found] at follows
    obtain ⟨reads, leads⟩ := follows
    split
    next fatal =>
      refine ⟨.attemptFailed reads fatal, leads.of_iff fun noted => ?_⟩
      refine ⟨fun inside => ?_, .within⟩
      rcases notes_iff.mp inside with inside | failed
      · exact inside
      · cases reads.unique failed.1
        cases failed.2.symm.trans fatal
    next recoverable =>
      have recoverable : failure.isFatal = false := by simpa using recoverable
      refine ⟨.attemptNone reads recoverable, (leads.agrees.note failure).moveTo state.index,
        fun noted => ?_, id⟩
      have member : noted ∈ ((after.note failure).moveTo state.index).failures ↔
          noted = failure ∨ noted ∈ after.failures := List.mem_cons
      rw [member, leads.notes]
      constructor
      · rintro (rfl | old | inside)
        · exact .inr (.attempt reads recoverable)
        · exact .inl old
        · exact .inr (.within inside)
      · rintro (old | inside)
        · exact .inr (.inl old)
        rcases notes_iff.mp inside with inside | failed
        · exact .inr (.inr inside)
        · cases reads.unique failed.1
          exact .inl rfl
  next => trivial

theorem Outcome.iterate_follows {σ : Type} {step : σ → Program (Option σ)}
    {run : σ → State → Outcome (Option σ)}
    (follows : ∀ value state, state.Agrees setting →
      (run value state).Follows setting (step value) state)
    {rounds : Nat} {value : σ} {state : State} (agrees : state.Agrees setting) :
    (Outcome.iterate run rounds value state).Follows setting (.iterate value step) state := by
  induction rounds generalizing value state with
  | zero => trivial
  | succ rounds ih =>
      have here := follows value state agrees
      unfold Outcome.iterate
      split
      next after found =>
        rw [found] at here
        refine ⟨.iterateStop here.1, here.2.of_iff fun failure => notes_iff.trans ?_⟩
        refine ⟨fun notes => notes.elim id ?_, .inl⟩
        rintro ⟨next, middle, again, _⟩
        cases here.1.unique again
      next next after found =>
        rw [found] at here
        obtain ⟨reads, leads⟩ := here
        have rest : (Outcome.iterate run rounds next after).Follows setting (.iterate next step)
            after := ih leads.agrees
        have onward {last : State} (leadsRest : after.Leads setting (.iterate next step) last) :
            state.Leads setting (.iterate value step) last := by
          refine ⟨leadsRest.agrees, fun failure => ?_, leadsRest.within ∘ leads.within⟩
          rw [leadsRest.notes, leads.notes]
          constructor
          · rintro ((old | noted) | noted)
            · exact .inl old
            · exact .inr (.round noted)
            · exact .inr (.later reads noted)
          · rintro (old | notes)
            · exact .inl (.inl old)
            rcases notes_iff.mp notes with noted | ⟨other, place, again, noted⟩
            · exact .inl (.inr noted)
            · cases reads.unique again
              exact .inr noted
        revert rest
        cases Outcome.iterate run rounds next after with
        | done value last => exact fun rest => ⟨.iterateNext reads rest.1, onward rest.2⟩
        | failed failure last => exact fun rest => ⟨.iterateNext reads rest.1, onward rest.2⟩
        | exhausted => exact fun _ => trivial
      next failure after found =>
        rw [found] at here
        refine ⟨.iterateFailed here.1, here.2.of_iff fun failure => notes_iff.trans ?_⟩
        refine ⟨fun notes => notes.elim id ?_, .inl⟩
        rintro ⟨next, middle, again, _⟩
        cases here.1.unique again
      next => trivial

theorem Memo.of_find?_store {memo : Memo} {key other : MemoKey} {index place : Nat}
    {result found : Remembered}
    (kept : (memo.store key index result).find? other place = some found) :
    (other = key ∧ place = index ∧ found = result) ∨ memo.find? other place = some found := by
  by_cases known : index < memo.rows.size
  · rw [Memo.find?_store known] at kept
    split at kept
    next same =>
      cases kept
      exact .inl ⟨same.2.symm, same.1.symm, rfl⟩
    next => exact .inr kept
  · have unchanged : memo.rows.modify index (·.store key result) = memo.rows := by
      simp [Array.modify, Array.modifyM, known, Id.run]
      rfl
    rw [Memo.find?, Memo.store, unchanged] at kept
    exact .inr kept

/-- A result that is kept after its rule has been run agrees. -/
theorem State.Leads.store {before after : State} {key : MemoKey}
    (leads : before.Leads setting (.call (.expr key.rule)) after) (result : Remembered)
    (reads : Reads setting (.call (.expr key.rule)) before.index result.reading) :
    before.Leads setting (.call (.expr key.rule)) (after.store key before.index result) := by
  refine ⟨fun other place found kept => ?_, leads.notes, leads.within⟩
  rcases Memo.of_find?_store kept with ⟨rfl, rfl, rfl⟩ | kept
  · exact ⟨reads, fun failure notes => (leads.notes failure).mpr (.inr notes)⟩
  · exact leads.agrees other place found kept

theorem Setting.remember_follows {key : MemoKey} {run : State → Outcome Expr} {state : State}
    (agrees : state.Agrees setting)
    (follows : (run state).Follows setting (.call (.expr key.rule)) state) :
    (setting.remember key run state).Follows setting (.remember key key.rule) state := by
  have same (failure : Failure) : Notes setting (.remember key key.rule) state.index failure ↔
      Notes setting (.call (.expr key.rule)) state.index failure := notes_iff
  unfold Setting.remember
  split
  next =>
    dsimp only
    split
    next expr stop kept =>
      obtain ⟨reads, noted⟩ := agrees _ _ _ kept
      have bounds : _ ∧ (stop = state.index ∨ stop < setting.buffer.size) := reads.stop_bounds
      refine ⟨.remember reads, agrees, fun failure => ?_, fun within => ?_⟩
      · rw [same]
        exact ⟨.inl, fun known => known.elim id (noted failure)⟩
      · exact bounds.2.elim (fun stays => stays ▸ within) id
    next failure kept =>
      obtain ⟨reads, noted⟩ := agrees _ _ _ kept
      refine ⟨.remember reads, agrees, fun failure => ?_, id⟩
      rw [same]
      exact ⟨.inl, fun known => known.elim id (noted failure)⟩
    next =>
      revert follows
      cases run state with
      | done expr after =>
          exact fun follows => ⟨.remember follows.1,
            (follows.2.store (.tree expr after.index) follows.1).of_iff same⟩
      | failed failure after =>
          exact fun follows => ⟨.remember follows.1,
            (follows.2.store (.failure failure) follows.1).of_iff same⟩
      | exhausted => exact fun _ => trivial
  next =>
    revert follows
    cases run state with
    | done expr after => exact fun follows => ⟨.remember follows.1, follows.2.of_iff same⟩
    | failed failure after => exact fun follows => ⟨.remember follows.1, follows.2.of_iff same⟩
    | exhausted => exact fun _ => trivial

/-! ### What a run gives -/

/-- Where the calls give what their rules read, a run gives what its program reads. -/
theorem Program.run_follows {call : (rule : Rule) → State → Outcome rule.Node}
    (calls : ∀ rule state, state.Agrees setting →
      (call rule state).Follows setting (.call rule) state)
    {program : Program α} (keyed : program.Keyed) {state : State} (agrees : state.Agrees setting) :
    (program.run setting call state).Follows setting program state := by
  induction program generalizing state with
  | yield value => exact ⟨.yield, .refl agrees fun failure => by simp [notes_iff, NotesBy]⟩
  | andThen first next ihFirst ihNext =>
      have followsFirst := ihFirst keyed.1 agrees
      unfold run
      split
      next value middle found =>
        rw [found] at followsFirst
        obtain ⟨reads, leads⟩ := followsFirst
        have followsNext := ihNext value (keyed.2 value) leads.agrees
        revert followsNext
        cases (next value).run setting call middle with
        | done result after =>
            exact fun rest => ⟨.andThen reads rest.1, leads.andThen reads rest.2⟩
        | failed failure after =>
            exact fun rest => ⟨.andThen reads rest.1, leads.andThen reads rest.2⟩
        | exhausted => exact fun _ => trivial
      next failure after found =>
        rw [found] at followsFirst
        obtain ⟨reads, leads⟩ := followsFirst
        refine ⟨.andThenFailed reads, leads.of_iff fun noted => notes_iff.trans ?_⟩
        refine ⟨fun notes => notes.elim id ?_, .inl⟩
        rintro ⟨value, middle, again, _⟩
        cases reads.unique again
      next => trivial
  | fail objection => exact ⟨.fail, .refl agrees fun failure => by simp [notes_iff, NotesBy]⟩
  | take kind =>
      unfold run Setting.take
      dsimp only
      split
      next found =>
        refine ⟨.take found, agrees.moveTo _, fun failure => ?_, Buffer.next_lt_size⟩
        simp [notes_iff, NotesBy, State.moveTo]
      next missing =>
        exact ⟨.takeFailed missing, .refl agrees fun failure => by simp [notes_iff, NotesBy]⟩
  | peek => exact ⟨.peek, .refl agrees fun failure => by simp [notes_iff, NotesBy]⟩
  | forbid violation token =>
      have quiet (failure : Failure) :
          ¬ Notes setting (.forbid violation token) state.index failure := by
        simp [notes_iff, NotesBy]
      unfold run Setting.forbid
      split
      next rejected => exact ⟨.forbidFailed rejected, .refl agrees quiet⟩
      next allowed => exact ⟨.forbid (by simpa using allowed), .refl agrees quiet⟩
  | attempt part ih => exact Outcome.attempt_follows (ih keyed agrees)
  | extent part ih =>
      have follows := ih keyed agrees
      have same (failure : Failure) : Notes setting (.extent part) state.index failure ↔
          Notes setting part state.index failure := notes_iff
      unfold run
      revert follows
      cases part.run setting call state with
      | done value after => exact fun follows => ⟨.extent follows.1, follows.2.of_iff same⟩
      | failed failure after =>
          exact fun follows => ⟨.extentFailed follows.1, follows.2.of_iff same⟩
      | exhausted => exact fun _ => trivial
  | iterate value step ih =>
      exact Outcome.iterate_follows (fun value state agrees => ih value (keyed value) agrees) agrees
  | remember key rule =>
      obtain rfl : rule = key.rule := keyed
      exact Setting.remember_follows agrees (calls _ _ agrees)
  | call rule => exact calls rule state agrees

/-- A rule does what its body does. -/
theorem Outcome.Follows.call {rule : Rule} {state : State} {outcome : Outcome rule.Node}
    (follows : outcome.Follows setting rule.body state) :
    outcome.Follows setting (.call rule) state := by
  have same (failure : Failure) : Notes setting (.call rule) state.index failure ↔
      Notes setting rule.body state.index failure := notes_iff
  cases outcome with
  | done value after => exact ⟨.call follows.1, follows.2.of_iff same⟩
  | failed failure after => exact ⟨.call follows.1, follows.2.of_iff same⟩
  | exhausted => trivial

theorem Rule.run_follows (depth : Nat) (rule : Rule) (state : State)
    (agrees : state.Agrees setting) :
    (rule.run setting depth state).Follows setting (.call rule) state := by
  induction depth generalizing rule state with
  | zero => trivial
  | succ depth ih => exact (Program.run_follows ih (Program.keyed_body rule) agrees).call

theorem Program.read_follows {program : Program α} (keyed : program.Keyed) {state : State}
    (agrees : state.Agrees setting) :
    (program.read setting state).Follows setting program state :=
  run_follows (Rule.run_follows setting.depthLimit) keyed agrees

/-! ### Limits -/

/-- The rounds that are left outnumber the tokens that are left. -/
theorem Outcome.iterate_ne_exhausted {σ : Type} {contract : Contract}
    {step : σ → Program (Option σ)} {run : σ → State → Outcome (Option σ)}
    (follows : ∀ value state, state.Agrees setting →
      (run value state).Follows setting (step value) state)
    {holds : σ → Nat → Prop} {goal : σ → Nat → Prop}
    (ensured : ∀ rule index value stop, Reads setting (.call rule) index (.done value stop) →
      contract.ensures rule index value stop)
    (keeps : ∀ value index, holds value index →
      (step value).Meets setting contract index fun next stop =>
        match next with
        | none => goal value stop
        | some next => index < stop ∧ holds next stop)
    (runs : ∀ value state, state.Agrees setting → holds value state.index →
      run value state ≠ .exhausted)
    {rounds : Nat} {value : σ} {state : State} (agrees : state.Agrees setting)
    (here : holds value state.index) (more : 0 < rounds)
    (enough : setting.buffer.size < rounds + state.index) :
    Outcome.iterate run rounds value state ≠ .exhausted := by
  induction rounds generalizing value state with
  | zero => exact absurd more (Nat.lt_irrefl 0)
  | succ rounds ih =>
      have stepFollows := follows value state agrees
      have stepRuns := runs value state agrees here
      unfold Outcome.iterate
      split
      next => simp
      next next after found =>
        rw [found] at stepFollows
        obtain ⟨reads, leads⟩ := stepFollows
        have moved : state.index < after.index ∧ holds next after.index :=
          (keeps value state.index here).of_calls ensured reads
        have within := reads.stop_bounds
        exact ih leads.agrees moved.2 (by omega) (by omega)
      next => simp
      next found => exact absurd found stepRuns

/-- A run exhausts no limit where the calls that the contract allows exhaust none. -/
theorem Program.run_ne_exhausted {contract : Contract}
    {call : (rule : Rule) → State → Outcome rule.Node}
    (follows : ∀ rule state, state.Agrees setting →
      (call rule state).Follows setting (.call rule) state)
    (ensured : ∀ rule index value stop, Reads setting (.call rule) index (.done value stop) →
      contract.ensures rule index value stop)
    (calls : ∀ rule state, state.Agrees setting → contract.allows rule state.index →
      call rule state ≠ .exhausted)
    {program : Program α} (keyed : program.Keyed) {state : State} (agrees : state.Agrees setting)
    {goal : α → Nat → Prop} (meets : program.Meets setting contract state.index goal) :
    program.run setting call state ≠ .exhausted := by
  induction program generalizing state with
  | yield value => simp [run]
  | andThen first next ihFirst ihNext =>
      have firstFollows := run_follows follows keyed.1 agrees
      have firstRuns := ihFirst keyed.1 agrees meets
      unfold run
      split
      next value middle found =>
        rw [found] at firstFollows
        obtain ⟨reads, leads⟩ := firstFollows
        have firstMeets : first.Meets setting contract state.index _ := meets
        exact ihNext value (keyed.2 value) leads.agrees (firstMeets.of_calls ensured reads)
      next => simp
      next found => exact absurd found firstRuns
  | fail objection => simp [run, Setting.object]
  | take kind =>
      simp only [run, Setting.take, Setting.object]
      split <;> simp
  | peek => simp [run]
  | forbid violation token =>
      simp only [run, Setting.forbid]
      split <;> simp
  | attempt part ih =>
      have partRuns := ih keyed agrees meets.1
      unfold run Outcome.attempt
      split
      next => simp
      next => split <;> simp
      next found => exact absurd found partRuns
  | extent part ih =>
      have partRuns := ih keyed agrees meets
      unfold run
      split
      next => simp
      next => simp
      next found => exact absurd found partRuns
  | iterate value step ih =>
      obtain ⟨holds, start, keeps⟩ := meets
      refine Outcome.iterate_ne_exhausted
        (fun value state agrees => run_follows follows (keyed value) agrees) ensured keeps
        (fun value state agrees here => ih value (keyed value) agrees (keeps value _ here))
        agrees start (by omega) (by omega)
  | remember key rule =>
      have callRuns := calls (.expr rule) state agrees meets.1
      unfold run Setting.remember
      split
      next =>
        dsimp only
        split
        next => simp
        next => simp
        next =>
          split
          next => simp
          next => simp
          next found => exact absurd found callRuns
      next => exact callRuns
  | call rule => exact calls rule state agrees meets.1

/-- Between one token and the next calls nest no deeper than the highest rank. -/
theorem Rule.run_ne_exhausted {depth : Nat} {rule : Rule} {state : State}
    (agrees : state.Agrees setting)
    (enough : 32 * (setting.buffer.size - state.index) + rule.rank < depth) :
    rule.run setting depth state ≠ .exhausted := by
  induction depth generalizing rule state with
  | zero => exact absurd enough (Nat.not_lt_zero _)
  | succ depth ih =>
      have meets : rule.body.Meets setting (advancing setting state.index rule.rank) state.index _ :=
        rule.body_advances
      refine Program.run_ne_exhausted (Rule.run_follows depth) (fun _ _ _ _ => Rule.stop_of_reads)
        ?_ (Program.keyed_body rule) agrees meets
      intro called after agrees allowed
      refine ih agrees ?_
      have below := called.rank_lt
      rcases allowed with ⟨behind, within⟩ | ⟨same, lower⟩
      · omega
      · omega

/-- No reading exhausts its limits. -/
theorem Program.read_ne_exhausted {program : Program α} (keyed : program.Keyed) {state : State}
    (agrees : state.Agrees setting) {goal : α → Nat → Prop}
    (meets : program.Meets setting (moving setting) state.index goal) :
    program.read setting state ≠ .exhausted := by
  refine run_ne_exhausted (Rule.run_follows setting.depthLimit)
    (fun _ _ _ _ => Rule.stop_of_reads) ?_ keyed agrees meets
  intro rule after agrees _
  refine Rule.run_ne_exhausted agrees ?_
  have below := rule.rank_lt
  simp only [Setting.depthLimit]
  omega

theorem State.start_agrees (setting : Setting) :
    (State.start setting.buffer).Agrees setting := fun _ _ _ found => by
  simp [State.start] at found

/-- At the top of a reading a program is read or fails as it reads. -/
theorem Program.read_cases {program : Program α} (keyed : program.Keyed) {state : State}
    (agrees : state.Agrees setting) {goal : α → Nat → Prop}
    (meets : program.Meets setting (moving setting) state.index goal) :
    (∃ value after, setting.read program state = (.accepted value, after) ∧
      Reads setting program state.index (.done value after.index) ∧
      state.Leads setting program after) ∨
    ∃ failure after, setting.read program state = (.rejected failure.error, after) ∧
      Reads setting program state.index (.failed failure) ∧ state.Leads setting program after := by
  have follows := Program.read_follows keyed agrees
  have runs := Program.read_ne_exhausted keyed agrees meets
  unfold Setting.read
  revert follows runs
  cases program.read setting state with
  | done value after => exact fun follows _ => .inl ⟨value, after, rfl, follows⟩
  | failed failure after => exact fun follows _ => .inr ⟨failure, after, rfl, follows⟩
  | exhausted => exact fun _ runs => absurd rfl runs

theorem Rule.read_cases (rule : Rule) {state : State} (agrees : state.Agrees setting) :
    (∃ value after, setting.read (.call rule) state = (.accepted value, after) ∧
      Reads setting (.call rule) state.index (.done value after.index) ∧
      state.Leads setting (.call rule) after) ∨
    ∃ failure after, setting.read (.call rule) state = (.rejected failure.error, after) ∧
      Reads setting (.call rule) state.index (.failed failure) ∧
      state.Leads setting (.call rule) after := by
  have keyed : (Program.call rule).Keyed := trivial
  have meets : (Program.call rule).Meets setting (moving setting) state.index fun _ _ => True :=
    ⟨trivial, fun _ _ _ _ => trivial⟩
  exact Program.read_cases keyed agrees meets

/-- Every rule reads something or fails, wherever it starts. -/
theorem Rule.reads_total (setting : Setting) (rule : Rule) (index : Nat) :
    ∃ reading, Reads setting (.call rule) index reading := by
  have agrees : ((State.start setting.buffer).moveTo index).Agrees setting :=
    (State.start_agrees setting).moveTo index
  rcases rule.read_cases agrees with ⟨value, after, _, reads, _⟩ | ⟨failure, after, _, reads, _⟩
  · exact ⟨_, reads⟩
  · exact ⟨_, reads⟩

/-- What a rule gives when it is run afresh from an index, it reads there. -/
theorem Rule.reads_of_run (rule : Rule) {index stop : Nat} {value : rule.Node}
    (accepted : (setting.read (.call rule) ((State.start setting.buffer).moveTo index)).1 =
      .accepted value)
    (stops : (setting.read (.call rule) ((State.start setting.buffer).moveTo index)).2.index = stop) :
    Reads setting (.call rule) index (.done value stop) := by
  have agrees : ((State.start setting.buffer).moveTo index).Agrees setting :=
    (State.start_agrees setting).moveTo index
  rcases rule.read_cases agrees with ⟨_, _, answer, reads, _⟩ | ⟨_, _, answer, _, _⟩
  · rw [answer] at accepted stops
    cases accepted
    cases stops
    exact reads
  · rw [answer] at accepted
    cases accepted

end

/-- A token list is accepted if an expression can be read from it up to the end of the input. -/
theorem parse_accepted_iff {tokens : List Token} {file : String} {options : Options} {expr : Expr} :
    parse tokens file options = .accepted expr ↔
      ∃ stop, Reads (Parser.ofTokens tokens file options).setting (.expr .expression) 0
        (.done expr stop) ∧ (Buffer.ofTokens tokens file).kind stop = .eof := by
  have agrees := State.start_agrees (Parser.ofTokens tokens file options).setting
  rcases Rule.read_cases (.expr .expression) agrees with
    ⟨value, after, answer, reads, _⟩ | ⟨failure, after, answer, reads, _⟩
  · have answer : (Parser.ofTokens tokens file options).setting.read (.expr .expression)
        (Parser.ofTokens tokens file options).state = (.accepted value, after) := answer
    simp only [parse, Parser.wholeExpression, Setting.wholeExpression, answer]
    constructor
    · intro accepted
      split at accepted
      next closed =>
        cases accepted
        exact ⟨after.index, reads, closed⟩
      next => cases accepted
    · rintro ⟨stop, again, closed⟩
      cases reads.unique again
      exact if_pos closed
  · have answer : (Parser.ofTokens tokens file options).setting.read (.expr .expression)
        (Parser.ofTokens tokens file options).state = (.rejected failure.error, after) := answer
    simp only [parse, Parser.wholeExpression, Setting.wholeExpression, answer]
    constructor
    · intro accepted
      cases accepted
    · rintro ⟨stop, again, _⟩
      cases reads.unique again

end AdaExpressions
