import Mathlib.Data.List.Permutation
import AdaExpressions.Parser.Basic

/-!
# Strict options

Two readings of one buffer are compared, of which the second rejects all that the first rejects. They
run in lockstep, down to what they remember and note, until the second one meets a violation that
only its own options reject. From there it fails: the failure is fatal, so no attempt, repetition or
choice takes it back.

Result: `parse_strictness`.
-/

namespace AdaExpressions

/-- Each of the options that is on is on in the stricter ones too. -/
structure Options.NoStricterThan (options stricter : Options) : Prop where
  chained : options.rejectChained = true → stricter.rejectChained = true
  mixed : options.rejectMixed = true → stricter.rejectMixed = true

/-- Only the stricter of two options reject the violation. -/
def Violation.Separates (violation : Violation) (options stricter : Options) : Prop :=
  options.rejects violation = false ∧ stricter.rejects violation = true

namespace Options

theorem NoStricterThan.rejects {options stricter : Options}
    (less : options.NoStricterThan stricter) (violation : Violation) :
    options.rejects violation = true → stricter.rejects violation = true :=
  match violation with
  | .chained _ => less.chained
  | .mixed _ _ => less.mixed

theorem lenient_noStricterThan (options : Options) : lenient.NoStricterThan options :=
  ⟨nofun, nofun⟩

theorem noStricterThan_strict (options : Options) : options.NoStricterThan strict :=
  ⟨fun _ => rfl, fun _ => rfl⟩

end Options

/-- The outcome under stricter options beside the one under `options`. -/
inductive Outcome.Hardens (options stricter : Options) {α : Type} : Outcome α → Outcome α → Prop
  | same {outcome : Outcome α} : Hardens options stricter outcome outcome
  | violated {outcome : Outcome α} {token : Token} {violation : Violation} {state : State} :
      violation.Separates options stricter →
      Hardens options stricter outcome (.failed ⟨token, .violation violation⟩ state)

namespace Outcome.Hardens

variable {options stricter : Options} {α : Type}

theorem attempt {first second : State → Outcome α} {state : State}
    (part : (first state).Hardens options stricter (second state)) :
    (Outcome.attempt first state).Hardens options stricter (Outcome.attempt second state) := by
  -- A violation is fatal, so the attempt lets it through.
  unfold Outcome.attempt
  revert part
  generalize first state = outcome, second state = harder
  rintro (_ | separates)
  · exact .same
  · exact .violated separates

theorem iterate {first second : α → State → Outcome (Option α)}
    (step : ∀ value state, (first value state).Hardens options stricter (second value state))
    (rounds : Nat) (value : α) (state : State) :
    (Outcome.iterate first rounds value state).Hardens options stricter
      (Outcome.iterate second rounds value state) := by
  induction rounds generalizing value state with
  | zero => exact .same
  | succ rounds ih =>
      simp only [Outcome.iterate]
      have round := step value state
      revert round
      generalize first value state = outcome, second value state = harder
      rintro (_ | separates)
      · match outcome with
        | .done none after => exact .same
        | .done (some next) after => exact ih next after
        | .failed failure after => exact .same
        | .exhausted => exact .same
      · exact .violated separates

end Outcome.Hardens

namespace Setting

/-- The same reading under other options. -/
def under (setting : Setting) (options : Options) : Setting :=
  { setting with options }

variable {setting : Setting} {stricter : Options}

theorem forbid_hardens (less : setting.options.NoStricterThan stricter) (violation : Violation)
    (token : Token) (state : State) :
    (setting.forbid violation token state).Hardens setting.options stricter
      ((setting.under stricter).forbid violation token state) := by
  have mono : setting.options.rejects violation = true →
      (setting.under stricter).options.rejects violation = true := less.rejects violation
  unfold Setting.forbid
  split
  next rejected =>
    rw [if_pos (mono rejected)]
    exact .same
  next allowed =>
    split
    next rejected => exact .violated ⟨eq_false_of_ne_true allowed, rejected⟩
    next => exact .same

theorem remember_hardens {first second : State → Outcome Expr} {state : State} (key : MemoKey)
    (part : (first state).Hardens setting.options stricter (second state)) :
    (setting.remember key first state).Hardens setting.options stricter
      ((setting.under stricter).remember key second state) := by
  unfold Setting.remember
  by_cases remembers : setting.remembers = true
  · rw [if_pos remembers, if_pos (show (setting.under stricter).remembers = true from remembers)]
    dsimp only
    cases state.memo.find? key state.index with
    | some kept => cases kept <;> exact .same
    | none =>
        revert part
        generalize first state = outcome, second state = harder
        rintro (_ | separates)
        · exact .same
        · exact .violated separates
  · rw [if_neg remembers,
      if_neg (show ¬ (setting.under stricter).remembers = true from remembers)]
    exact part

end Setting

/-- One program under both options: what one instruction keeps of the lockstep. -/
theorem Program.run_hardens {setting : Setting} {stricter : Options}
    (less : setting.options.NoStricterThan stricter)
    {call harder : (rule : Rule) → State → Outcome rule.Node}
    (calls : ∀ rule state, (call rule state).Hardens setting.options stricter (harder rule state))
    {α : Type} (program : Program α) (state : State) :
    (program.run setting call state).Hardens setting.options stricter
      (program.run (setting.under stricter) harder state) := by
  induction program generalizing state with
  | yield value => exact .same
  | andThen first next ihFirst ihNext =>
      simp only [run]
      have step := ihFirst state
      revert step
      generalize first.run setting call state = outcome,
        first.run (setting.under stricter) harder state = other
      rintro (_ | separates)
      · match outcome with
        | .done value after => exact ihNext value after
        | .failed failure after => exact .same
        | .exhausted => exact .same
      · exact .violated separates
  | fail objection => exact .same
  | take kind => exact .same
  | peek => exact .same
  | forbid violation token => exact Setting.forbid_hardens less violation token state
  | attempt part ih => exact .attempt (ih state)
  | extent part ih =>
      simp only [run]
      have inner := ih state
      revert inner
      generalize part.run setting call state = outcome,
        part.run (setting.under stricter) harder state = other
      rintro (_ | separates)
      · exact .same
      · exact .violated separates
  | iterate value step ih => exact .iterate (fun value state => ih value state) _ value state
  | remember key rule => exact Setting.remember_hardens key (calls (.expr rule) state)
  | call rule => exact calls rule state

theorem Rule.run_hardens {setting : Setting} {stricter : Options}
    (less : setting.options.NoStricterThan stricter) (depth : Nat) (rule : Rule) (state : State) :
    (rule.run setting depth state).Hardens setting.options stricter
      (rule.run (setting.under stricter) depth state) := by
  induction depth generalizing rule state with
  | zero => exact .same
  | succ depth ih => exact Program.run_hardens less ih rule.body state

/-! ### Whole token lists -/

/-- An error that stands for a violation keeps its place, whatever was noted further on. -/
theorem furthestError_violation (token : Token) (violation : Violation)
    (failures : List Failure) :
    furthestError (Failure.error ⟨token, .violation violation⟩) failures =
      Failure.error ⟨token, .violation violation⟩ := by
  have fatal : (Failure.error ⟨token, .violation violation⟩).isFatal = true := by
    cases violation <;> rfl
  unfold furthestError
  cases furthestFailure? failures with
  | none => rfl
  | some furthest => simp [fatal]

theorem parse_hardens {options stricter : Options} (less : options.NoStricterThan stricter)
    (tokens : List Token) (file : String) :
    parse tokens file stricter = parse tokens file options ∨
      ∃ token violation, violation.Separates options stricter ∧
        parse tokens file stricter =
          .rejected (Failure.error ⟨token, .violation violation⟩) := by
  let setting := (Parser.ofTokens tokens file options).setting
  have less : setting.options.NoStricterThan stricter := less
  have hardens : ((Program.expr .expression).read setting (.start setting.buffer)).Hardens
      options stricter
      ((Program.expr .expression).read (setting.under stricter) (.start setting.buffer)) :=
    Program.run_hardens less (Rule.run_hardens less setting.depthLimit) _ _
  show (setting.under stricter).wholeExpression (.start setting.buffer) =
      setting.wholeExpression (.start setting.buffer) ∨
    ∃ token violation, violation.Separates options stricter ∧
      (setting.under stricter).wholeExpression (.start setting.buffer) =
        .rejected (Failure.error ⟨token, .violation violation⟩)
  simp only [Setting.wholeExpression, Setting.read]
  revert hardens
  generalize (Program.expr .expression).read setting (.start setting.buffer) = outcome,
    (Program.expr .expression).read (setting.under stricter) (.start setting.buffer) = other
  rintro (_ | @⟨token, violation, _, separates⟩)
  · exact .inl rfl
  · refine .inr ⟨token, violation, separates, ?_⟩
    simp only [furthestError_violation]

/-- Options leave a verdict as it is under the lenient ones or turn it into a fatal error, each of
the two options into its own. So acceptance shrinks as options are turned on, the tree stays the
same, and both options together reject what one of them rejects alone. -/
theorem parse_strictness (tokens : List Token) (file : String) :
    (∀ options, parse tokens file options = parse tokens file .lenient ∨
      ∃ error, parse tokens file options = .rejected error ∧ error.isFatal = true ∧
        ((∃ operator, error.cause = .chained operator) ∧ options.rejectChained = true ∨
          (∃ first second, error.cause = .mixed first second) ∧ options.rejectMixed = true)) ∧
    (∀ options stricter, options.NoStricterThan stricter →
      ∀ expr, parse tokens file stricter = .accepted expr →
        parse tokens file options = .accepted expr) ∧
    ((∃ expr, parse tokens file .strict = .accepted expr) ↔
      (∃ expr, parse tokens file ⟨true, false⟩ = .accepted expr) ∧
        (∃ expr, parse tokens file ⟨false, true⟩ = .accepted expr)) := by
  have keeps : ∀ options stricter : Options, options.NoStricterThan stricter →
      ∀ expr, parse tokens file stricter = .accepted expr →
        parse tokens file options = .accepted expr := by
    intro options stricter less expr accepted
    rcases parse_hardens less tokens file with same | ⟨_, _, _, rejected⟩
    · exact same ▸ accepted
    · rw [accepted] at rejected
      cases rejected
  refine ⟨fun options => ?_, keeps, fun ⟨expr, accepted⟩ => ?_, ?_⟩
  · rcases parse_hardens options.lenient_noStricterThan tokens file with
      same | ⟨token, violation, ⟨_, rejects⟩, rejected⟩
    · exact .inl same
    · refine .inr ⟨_, rejected, ?_⟩
      cases violation with
      | chained op => exact ⟨rfl, .inl ⟨⟨_, rfl⟩, rejects⟩⟩
      | mixed first second => exact ⟨rfl, .inr ⟨⟨_, _, rfl⟩, rejects⟩⟩
  · exact ⟨⟨expr, keeps _ _ (Options.noStricterThan_strict _) expr accepted⟩,
      ⟨expr, keeps _ _ (Options.noStricterThan_strict _) expr accepted⟩⟩
  · rintro ⟨⟨chained, acceptedChained⟩, ⟨mixed, acceptedMixed⟩⟩
    rcases parse_hardens (Options.noStricterThan_strict ⟨true, false⟩) tokens file with
      same | ⟨_, first, ⟨open_, _⟩, rejected⟩
    · exact ⟨chained, same.trans acceptedChained⟩
    rcases parse_hardens (Options.noStricterThan_strict ⟨false, true⟩) tokens file with
      same | ⟨_, second, ⟨openOther, _⟩, again⟩
    · exact ⟨mixed, same.trans acceptedMixed⟩
    -- Neither option alone leaves room for the violation of the other.
    have oneError := rejected.symm.trans again
    cases first <;> cases second <;>
      simp [Options.rejects, Failure.error, Objection.cause] at open_ openOther oneError

/-- A chain of comparisons is read alike under the options that allow it, and a fatal error under
those that do not. -/
theorem parse_strictness_chain :
    let one : Token := ⟨.number, "1", default⟩
    let less : Token := ⟨.less, "<", default⟩
    let tokens : List Token := [one, less, one, less, one]
    let unit : Expr := .literal .number one
    let chain : Expr := .ofBinary unit .lt (.ofBinary unit .lt unit)
    Options.lenient.NoStricterThan ⟨false, true⟩ ∧ parse tokens "" ⟨false, true⟩ = .accepted chain ∧
      parse tokens "" .lenient = .accepted chain ∧
      ∃ error, parse tokens "" .strict = .rejected error ∧ error.isFatal = true ∧
        ∃ operator, error.cause = .chained operator := by
  intro one less tokens unit chain
  have accepted : parse tokens "" ⟨false, true⟩ = .accepted chain := by cbv
  have rejected : parse tokens "" .strict = .rejected ⟨.chained "<", default⟩ := by cbv
  have lenient := (parse_strictness tokens "").2.1 .lenient ⟨false, true⟩
    (Options.lenient_noStricterThan _) chain accepted
  refine ⟨Options.lenient_noStricterThan _, accepted, lenient, _, rejected, ?_⟩
  rcases (parse_strictness tokens "").1 .strict with same | ⟨error, again, fatal, kind⟩
  · cases rejected.symm.trans (same.trans lenient)
  · cases rejected.symm.trans again
    rcases kind with ⟨chained, -⟩ | ⟨⟨_, _, mixed⟩, -⟩
    · exact ⟨fatal, chained⟩
    · cases mixed

end AdaExpressions
