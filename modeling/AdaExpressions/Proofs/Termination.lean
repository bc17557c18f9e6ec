import Mathlib.Logic.Relation
import Mathlib.Order.WellFounded
import AdaExpressions.Proofs.Cursor
import AdaExpressions.Proofs.Remembering

/-!
# Readings end

While a program runs, parts of it and of the rules that it calls are entered one inside the other.
`Enters` is one such step, from what is about to run to a part that runs within it. A step into the
body of a rule goes down in rank unless a token was taken since the rule above was entered, and any
other step goes to a smaller part of the same text. So nothing is entered again inside itself before
a token is taken: there is no left recursion, and no kept result is asked for while it is computed.

Results: `Enters.cases` (what one step does), `lt_of_reenters` (nothing is entered again inside
itself at one index), `reading_ends`.
-/

namespace AdaExpressions

/-! ### What is entered -/

/-- A program about to run from a state, with calls at most `depth` deep. -/
structure Moment where
  depth : Nat
  {α : Type}
  program : Program α
  state : State

/-- A run that is at the first moment comes to the second one inside it. -/
inductive Enters (setting : Setting) : Moment → Moment → Prop
  | first {depth : Nat} {α β : Type} {first : Program α} {next : α → Program β} {state : State} :
      Enters setting ⟨depth, .andThen first next, state⟩ ⟨depth, first, state⟩
  | next {depth : Nat} {α β : Type} {first : Program α} {next : α → Program β} {value : α}
      {state middle : State} :
      first.run setting (Rule.run setting depth) state = .done value middle →
      Enters setting ⟨depth, .andThen first next, state⟩ ⟨depth, next value, middle⟩
  | attempt {depth : Nat} {α : Type} {part : Program α} {state : State} :
      Enters setting ⟨depth, .attempt part, state⟩ ⟨depth, part, state⟩
  | extent {depth : Nat} {α : Type} {part : Program α} {state : State} :
      Enters setting ⟨depth, .extent part, state⟩ ⟨depth, part, state⟩
  | round {depth : Nat} {σ : Type} {value : σ} {step : σ → Program (Option σ)} {state : State} :
      Enters setting ⟨depth, .iterate value step, state⟩ ⟨depth, step value, state⟩
  | later {depth : Nat} {σ : Type} {value next : σ} {step : σ → Program (Option σ)}
      {state middle : State} :
      (step value).run setting (Rule.run setting depth) state = .done (some next) middle →
      Enters setting ⟨depth, .iterate value step, state⟩ ⟨depth, .iterate next step, middle⟩
  | remember {depth : Nat} {key : MemoKey} {rule : ExprRule} {state : State} :
      (setting.remembers = true → state.memo.find? key state.index = none) →
      Enters setting ⟨depth, .remember key rule, state⟩ ⟨depth, .call (.expr rule), state⟩
  | call {depth : Nat} {rule : Rule} {state : State} :
      Enters setting ⟨depth + 1, .call rule, state⟩ ⟨depth, rule.body, state⟩

/-- A program with the type of what it yields. -/
abbrev AnyProgram := Σ α : Type, Program α

/-- What is directly inside the text of a program. -/
def Program.HasPart : {α : Type} → Program α → AnyProgram → Prop
  | _, .andThen first next, part => part = ⟨_, first⟩ ∨ ∃ value, part = ⟨_, next value⟩
  | _, .attempt inner, part => part = ⟨_, inner⟩
  | _, .extent inner, part => part = ⟨_, inner⟩
  | _, .iterate value step, part => part = ⟨_, step value⟩
  | _, .remember _ rule, part => part = ⟨_, .call (.expr rule)⟩
  | _, _, _ => False

/-- Texts have no endless parts, so none is a part of itself. -/
theorem hasPart_wellFounded : WellFounded fun part whole : AnyProgram => whole.2.HasPart part := by
  have call (rule : Rule) :
      Acc (fun part whole : AnyProgram => whole.2.HasPart part) ⟨_, .call rule⟩ :=
    ⟨_, fun _ isPart => isPart.elim⟩
  refine ⟨fun ⟨α, program⟩ => ?_⟩
  induction program with
  | andThen first next ihFirst ihNext =>
      refine ⟨_, ?_⟩
      rintro _ (rfl | ⟨value, rfl⟩)
      · exact ihFirst
      · exact ihNext value
  | attempt inner ih => exact ⟨_, by rintro _ rfl; exact ih⟩
  | extent inner ih => exact ⟨_, by rintro _ rfl; exact ih⟩
  | iterate value step ih => exact ⟨_, by rintro _ rfl; exact ih value⟩
  | remember key rule => exact ⟨_, by rintro _ rfl; exact call (.expr rule)⟩
  | call rule => exact call rule
  | _ => exact ⟨_, fun _ isPart => isPart.elim⟩

namespace Moment

abbrev index (moment : Moment) : Nat :=
  moment.state.index

abbrev text (moment : Moment) : AnyProgram :=
  ⟨moment.α, moment.program⟩

/-- What is kept agrees with the rules, and the program keeps it under the right keys. -/
structure Ready (moment : Moment) (setting : Setting) : Prop where
  keyed : moment.program.Keyed
  agrees : moment.state.Agrees setting

/-- From here rules are called behind `start`, or at `start` below `rank`. -/
def Below (moment : Moment) (setting : Setting) (start rank : Nat) : Prop :=
  ∃ goal, moment.program.Meets setting (advancing setting start rank) moment.index goal

end Moment

variable {setting : Setting} {moment inner : Moment} {start rank : Nat}

/-- What a run gives, the program reads. -/
theorem Moment.Ready.follows (ready : moment.Ready setting) :
    (moment.program.run setting (Rule.run setting moment.depth) moment.state).Follows setting
      moment.program moment.state :=
  Program.run_follows (Rule.run_follows moment.depth) ready.keyed ready.agrees

theorem Enters.ready (enters : Enters setting moment inner) (ready : moment.Ready setting) :
    inner.Ready setting ∧ moment.index ≤ inner.index := by
  obtain ⟨keyed, agrees⟩ := ready
  cases enters with
  | first => exact ⟨⟨keyed.1, agrees⟩, Nat.le_refl _⟩
  | @next depth α β first _ value state middle found =>
      have readyFirst : (Moment.mk depth first state).Ready setting := ⟨keyed.1, agrees⟩
      have follows := readyFirst.follows
      rw [found] at follows
      exact ⟨⟨keyed.2 value, follows.2.agrees⟩, follows.1.stop_bounds.1⟩
  | attempt => exact ⟨⟨keyed, agrees⟩, Nat.le_refl _⟩
  | extent => exact ⟨⟨keyed, agrees⟩, Nat.le_refl _⟩
  | round => exact ⟨⟨keyed _, agrees⟩, Nat.le_refl _⟩
  | @later depth σ value next step state middle found =>
      have readyStep : (Moment.mk depth (step value) state).Ready setting := ⟨keyed value, agrees⟩
      have follows := readyStep.follows
      rw [found] at follows
      exact ⟨⟨keyed, follows.2.agrees⟩, follows.1.stop_bounds.1⟩
  | remember => exact ⟨⟨trivial, agrees⟩, Nat.le_refl _⟩
  | call => exact ⟨⟨Program.keyed_body _, agrees⟩, Nat.le_refl _⟩

/-- A round of a repetition that yields a state takes a token. -/
theorem Moment.Ready.lt_of_round {depth : Nat} {σ : Type} {value next : σ}
    {step : σ → Program (Option σ)} {state after : State}
    (ready : (Moment.mk depth (.iterate value step) state).Ready setting)
    (below : (Moment.mk depth (.iterate value step) state).Below setting start rank)
    (found : (step value).run setting (Rule.run setting depth) state = .done (some next) after) :
    state.index < after.index ∧
      (Moment.mk depth (.iterate next step) after).Below setting start rank := by
  obtain ⟨goal, holds, here, keeps⟩ := below
  have readyStep : (Moment.mk depth (step value) state).Ready setting :=
    ⟨ready.keyed value, ready.agrees⟩
  have follows := readyStep.follows
  rw [found] at follows
  have moved : state.index < after.index ∧ holds next after.index :=
    (keeps value _ here).of_calls (fun _ _ _ _ => Rule.stop_of_reads) follows.1
  exact ⟨moved.1, goal, holds, moved.2, keeps⟩

/-- A step stays below the same rank, behind a token or in a smaller part of the text; only a step
into the body of a rule starts anew, at a lower rank if no token was taken since. -/
theorem Enters.cases (enters : Enters setting moment inner) (ready : moment.Ready setting)
    (below : moment.Below setting start rank) :
    (inner.Below setting start rank ∧
      (inner.index = moment.index → moment.program.HasPart inner.text)) ∨
    inner.index = moment.index ∧ ∃ lower, inner.Below setting moment.index lower ∧
      (start = moment.index → lower < rank) := by
  obtain ⟨goal, meets⟩ := below
  cases enters with
  | first => exact .inl ⟨⟨_, meets⟩, fun _ => .inl rfl⟩
  | @next depth α β first next value state middle found =>
      have readyFirst : (Moment.mk depth first state).Ready setting :=
        ⟨ready.keyed.1, ready.agrees⟩
      have follows := readyFirst.follows
      rw [found] at follows
      have firstMeets : first.Meets setting (advancing setting start rank) state.index _ := meets
      have nextMeets := firstMeets.of_calls (fun _ _ _ _ => Rule.stop_of_reads) follows.1
      exact .inl ⟨⟨goal, nextMeets⟩, fun _ => .inr ⟨value, rfl⟩⟩
  | attempt => exact .inl ⟨⟨_, meets.1⟩, fun _ => rfl⟩
  | extent => exact .inl ⟨⟨_, meets⟩, fun _ => rfl⟩
  | round =>
      obtain ⟨holds, here, keeps⟩ := meets
      exact .inl ⟨⟨_, keeps _ _ here⟩, fun _ => rfl⟩
  | later found =>
      obtain ⟨moved, below⟩ := ready.lt_of_round ⟨goal, meets⟩ found
      exact .inl ⟨below, fun same => absurd same (Nat.ne_of_gt moved)⟩
  | remember => exact .inl ⟨⟨goal, meets⟩, fun _ => rfl⟩
  | @call depth rule state =>
      have advances : rule.body.Meets setting (advancing setting state.index rule.rank) state.index
        _ := rule.body_advances
      refine .inr ⟨rfl, rule.rank, ⟨_, advances⟩, fun here => ?_⟩
      rcases meets.1 with ⟨behind, _⟩ | ⟨_, lower⟩
      · exact absurd here (Nat.ne_of_lt behind)
      · exact lower

/-! ### What is entered again -/

/-- Steps that stay at one index either lead to a part of the text that they start from, or into the
body of a rule, and from there on everything is below a lower rank than where they started. -/
theorem path_cases (path : Relation.TransGen (Enters setting) moment inner)
    (ready : moment.Ready setting) (below : moment.Below setting start rank) :
    (inner.Ready setting ∧ moment.index ≤ inner.index ∧
      ∃ start rank, inner.Below setting start rank) ∧
    (inner.index = moment.index →
      (inner.Below setting start rank ∧ Relation.TransGen
        (fun part whole : AnyProgram => whole.2.HasPart part) inner.text moment.text) ∨
      ∃ lower, inner.Below setting moment.index lower ∧
        (start = moment.index → lower < rank)) := by
  induction path with
  | single step =>
      obtain ⟨readyInner, later⟩ := step.ready ready
      rcases step.cases ready below with ⟨same, part⟩ | ⟨_, lower, anew, less⟩
      · exact ⟨⟨readyInner, later, _, _, same⟩, fun here => .inl ⟨same, .single (part here)⟩⟩
      · exact ⟨⟨readyInner, later, _, _, anew⟩, fun _ => .inr ⟨lower, anew, less⟩⟩
  | @tail middle inner path step ih =>
      obtain ⟨⟨readyMiddle, later, _, _, belowMiddle⟩, cases_⟩ := ih
      obtain ⟨readyInner, further⟩ := step.ready readyMiddle
      refine ⟨⟨readyInner, Nat.le_trans later further, ?_⟩, fun here => ?_⟩
      · rcases step.cases readyMiddle belowMiddle with ⟨same, _⟩ | ⟨_, _, anew, _⟩
        · exact ⟨_, _, same⟩
        · exact ⟨_, _, anew⟩
      have still : middle.index = moment.index := by omega
      rcases cases_ still with ⟨belowMiddle, parts⟩ | ⟨lower, belowMiddle, less⟩
      · rcases step.cases readyMiddle belowMiddle with ⟨same, part⟩ | ⟨_, lower, anew, less⟩
        · exact .inl ⟨same, .head (part (here.trans still.symm)) parts⟩
        · exact .inr ⟨lower, still ▸ anew, still ▸ less⟩
      · rcases step.cases readyMiddle belowMiddle with ⟨same, _⟩ | ⟨_, lowest, anew, lesser⟩
        · exact .inr ⟨lower, same, less⟩
        · exact .inr ⟨lowest, still ▸ anew, fun at_ => Nat.lt_trans (lesser still.symm) (less at_)⟩

/-- What is entered again inside itself is so behind a token. Otherwise the steps could be taken
once more, each time below a lower rank. -/
theorem lt_of_reenters (path : Relation.TransGen (Enters setting) moment inner)
    (again : inner.text = moment.text) (ready : moment.Ready setting)
    (below : moment.Below setting start rank) : moment.index < inner.index := by
  obtain ⟨⟨_, later, _⟩, cases_⟩ := path_cases path ready below
  refine Nat.lt_of_le_of_ne later fun here => ?_
  have apart : ¬ Relation.TransGen (fun part whole : AnyProgram => whole.2.HasPart part) inner.text
      moment.text := fun parts =>
    hasPart_wellFounded.transGen.irrefl.irrefl moment.text (again ▸ parts)
  have back {rank : Nat} (below : inner.Below setting moment.index rank) :
      moment.Below setting moment.index rank := by
    obtain ⟨depth, program, state⟩ := moment
    obtain ⟨depth', program', state'⟩ := inner
    cases again
    obtain ⟨goal, meets⟩ := below
    exact ⟨goal, here ▸ meets⟩
  have never (rank : Nat) : ¬ moment.Below setting moment.index rank := by
    induction rank using Nat.strongRecOn with
    | ind rank ih =>
        intro below
        rcases (path_cases path ready below).2 here.symm with ⟨_, parts⟩ | ⟨lower, anew, less⟩
        · exact apart parts
        · exact ih lower (less rfl) (back anew)
  rcases cases_ here.symm with ⟨_, parts⟩ | ⟨lower, anew, _⟩
  · exact apart parts
  · exact never lower (back anew)

/-! ### Readings -/

namespace Parser

/-- The moment at which the parser starts to read the program. -/
def begins (parser : Parser) {α : Type} (program : Program α) : Moment :=
  ⟨parser.setting.depthLimit, program, parser.state⟩

/-- The program is read to an end, and nothing on the way is begun twice at one token. -/
structure Ends (parser : Parser) {α : Type} (program : Program α) : Prop where
  decided : (parser.read program).1 ≠ .undecided
  /-- Whatever the reading enters, be it a rule or a part of one, is entered again inside itself
  only behind at least one token. -/
  reenters {moment inner : Moment} :
    Relation.ReflTransGen (Enters parser.setting) (parser.begins program) moment →
    Relation.TransGen (Enters parser.setting) moment inner → inner.text = moment.text →
    moment.index < inner.index
  /-- While a result is computed that will be kept, it is not looked up. -/
  remembers {key : MemoKey} {rule other : ExprRule} {depth deeper : Nat} {state again : State} :
    Relation.ReflTransGen (Enters parser.setting) (parser.begins program)
      ⟨depth, .remember key rule, state⟩ →
    Relation.TransGen (Enters parser.setting) ⟨depth, .remember key rule, state⟩
      ⟨deeper, .remember key other, again⟩ →
    state.index < again.index
  /-- Every round of a repetition but its last one takes a token. -/
  rounds {σ : Type} {value next : σ} {step : σ → Program (Option σ)} {depth : Nat}
      {state after : State} :
    Relation.ReflTransGen (Enters parser.setting) (parser.begins program)
      ⟨depth, .iterate value step, state⟩ →
    (step value).run parser.setting (Rule.run parser.setting depth) state
      = .done (some next) after →
    state.index < after.index

theorem decided_of_advances (parser : Parser) {α : Type} {program : Program α} {start rank : Nat}
    (keyed : program.Keyed) (agrees : parser.state.Agrees parser.setting)
    {goal : α → Nat → Prop}
    (meets : program.Meets parser.setting (advancing parser.setting start rank) parser.mark goal) :
    (parser.read program).1 ≠ .undecided := by
  have moves : program.Meets parser.setting (moving parser.setting) parser.mark goal := by
    refine meets.imp ?_ ?_ ?_
    · exact fun _ _ _ => trivial
    · exact fun _ _ _ _ => id
    · exact fun _ _ => id
  rcases Program.read_cases keyed agrees moves with ⟨_, _, answer, _⟩ | ⟨_, _, answer, _⟩
  all_goals
    simp only [read, answer]
    simp

end Parser

/-- Wherever a session leads, every construct is read to an end or fails there. On the way nothing
is entered again inside itself without a token between, and every round of a repetition takes
one. -/
theorem reading_ends {tokens : List Token} {file : String} {options : Options} {parser : Parser}
    (session : Session tokens file options parser) {α : Type} {program : Program α}
    (construct : program.Construct) : parser.Ends program := by
  obtain ⟨agrees, _⟩ := session.keeps
  have advances : program.Advances parser.setting parser.mark 17 := construct.advances
  have ready : (parser.begins program).Ready parser.setting := ⟨construct.keyed, agrees⟩
  have below : (parser.begins program).Below parser.setting parser.mark 17 := ⟨_, advances⟩
  have reached {moment : Moment}
      (path : Relation.ReflTransGen (Enters parser.setting) (parser.begins program) moment) :
      moment.Ready parser.setting ∧ ∃ start rank, moment.Below parser.setting start rank := by
    rcases Relation.reflTransGen_iff_eq_or_transGen.mp path with rfl | path
    · exact ⟨ready, _, _, below⟩
    · obtain ⟨⟨readyHere, _, belowHere⟩, _⟩ := path_cases path ready below
      exact ⟨readyHere, belowHere⟩
  refine ⟨parser.decided_of_advances construct.keyed agrees advances, ?_, ?_, ?_⟩
  · intro moment inner path cycle again
    obtain ⟨readyHere, _, _, belowHere⟩ := reached path
    exact lt_of_reenters cycle again readyHere belowHere
  · intro key rule other depth deeper state again path cycle
    obtain ⟨readyHere, _, _, belowHere⟩ := reached path
    obtain ⟨⟨readyInner, _⟩, _⟩ := path_cases cycle readyHere belowHere
    -- Both programs look up the same: the rule goes with the key.
    obtain rfl : rule = key.rule := readyHere.keyed
    obtain rfl : other = key.rule := readyInner.keyed
    exact lt_of_reenters cycle rfl readyHere belowHere
  · intro σ value next step depth state after path found
    obtain ⟨readyHere, _, _, belowHere⟩ := reached path
    exact (readyHere.lt_of_round belowHere found).1

/-- A list of two choices of which the second is a range, read from behind its first token. -/
theorem reading_ends_choices :
    let one : Token := ⟨.number, "1", default⟩
    let tokens : List Token := [⟨.openParen, "(", default⟩, one, ⟨.pipe, "|", default⟩, one,
      ⟨.dotDot, "..", default⟩, one]
    let parser := (Parser.ofTokens tokens "" .strict).reset 1
    Session tokens "" .strict parser ∧ (Program.call .choiceList).Construct ∧
      parser.Ends (Program.call .choiceList) := by
  intro one tokens parser
  have session : Session tokens "" .strict parser := .reset .start (by decide)
  exact ⟨session, .rule .choiceList, reading_ends session (.rule .choiceList)⟩

end AdaExpressions
