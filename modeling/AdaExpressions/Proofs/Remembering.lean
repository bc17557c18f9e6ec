import AdaExpressions.Parser.Basic
import AdaExpressions.Proofs.Reading.Run

/-!
# Remembering changes nothing

A session is whatever can be done with one parser: rules are run, attempted and undone, and the
parser is moved to marks, while results are remembered throughout. Wherever a session leads, a rule
that is run there answers as it does when the tokens that are left are read afresh and nothing is
remembered.

Result: `remembering_transparent`.
-/

namespace AdaExpressions

/-- A setting whose buffer holds what another holds from `offset` on. -/
structure Setting.IsRest (part setting : Setting) (offset : Nat) : Prop where
  options : part.options = setting.options
  token : ∀ index, part.buffer.token index = setting.buffer.token (index + offset)

def Reading.shift {α : Type} (offset : Nat) : Reading α → Reading α
  | .done value stop => .done value (stop + offset)
  | .failed failure => .failed failure

/-- Two answers, with the marks they leave `offset` apart. Where a failed rule leaves its parser is
not a part of its answer. -/
inductive SameAnswer {α : Type} (offset : Nat) : Verdict α → Nat → Verdict α → Nat → Prop
  | accepted {value : α} {mark : Nat} :
      SameAnswer offset (.accepted value) (mark + offset) (.accepted value) mark
  | rejected {error : Error} {mark other : Nat} :
      SameAnswer offset (.rejected error) mark (.rejected error) other

namespace Setting.IsRest

variable {part setting : Setting} {offset : Nat}

theorem kind (rest : part.IsRest setting offset) (index : Nat) :
    part.buffer.kind index = setting.buffer.kind (index + offset) :=
  congrArg Token.kind (rest.token index)

theorem kindsAt (rest : part.IsRest setting offset) (index : Nat) :
    part.kindsAt index = setting.kindsAt (index + offset) := by
  simp only [Setting.kindsAt, rest.kind, Nat.add_right_comm]

theorem next (rest : part.IsRest setting offset) (index : Nat) :
    part.buffer.next index + offset = setting.buffer.next (index + offset) := by
  simp only [Buffer.next, rest.kind]
  split <;> omega

theorem extent (rest : part.IsRest setting offset) {start stop : Nat} (ordered : start ≤ stop) :
    part.extent start stop = setting.extent (start + offset) (stop + offset) := by
  have last : max start (stop - 1) + offset = max (start + offset) (stop + offset - 1) := by omega
  simp only [Setting.extent, rest.token, last]

theorem rejects (rest : part.IsRest setting offset) (violation : Violation) :
    part.options.rejects violation = setting.options.rejects violation := by
  rw [rest.options]

/-- What is read from the rest is read from the whole at the same tokens. -/
theorem reads (rest : part.IsRest setting offset) {α : Type} {program : Program α} {index : Nat}
    {reading : Reading α} (reads : Reads part program index reading) :
    Reads setting program (index + offset) (reading.shift offset) := by
  induction reads with
  | yield => exact .yield
  | andThen _ _ ihFirst ihNext => exact .andThen ihFirst ihNext
  | andThenFailed _ ih => exact .andThenFailed ih
  | fail =>
      rw [rest.token]
      exact .fail
  | take found =>
      rw [rest.kind] at found
      simp only [Reading.shift, rest.token, rest.next]
      exact .take found
  | takeFailed missing =>
      rw [rest.kind] at missing
      rw [rest.token]
      exact .takeFailed missing
  | peek =>
      rw [rest.kindsAt]
      exact .peek
  | forbid allowed => exact .forbid (rest.rejects _ ▸ allowed)
  | forbidFailed rejected => exact .forbidFailed (rest.rejects _ ▸ rejected)
  | attempt _ ih => exact .attempt ih
  | attemptNone _ recoverable ih => exact .attemptNone ih recoverable
  | attemptFailed _ fatal ih => exact .attemptFailed ih fatal
  | extent inner ih =>
      rw [rest.extent inner.stop_bounds.1]
      exact .extent ih
  | extentFailed _ ih => exact .extentFailed ih
  | iterateStop _ ih => exact .iterateStop ih
  | iterateNext _ _ ihStep ihRest => exact .iterateNext ihStep ihRest
  | iterateFailed _ ih => exact .iterateFailed ih
  | remember _ ih => exact .remember ih
  | call _ ih => exact .call ih

theorem notes (rest : part.IsRest setting offset) {α : Type} {program : Program α} {index : Nat}
    {failure : Failure} (notes : Notes part program index failure) :
    Notes setting program (index + offset) failure := by
  induction notes with
  | first _ ih => exact .first ih
  | next reads _ ih => exact .next (rest.reads reads) ih
  | within _ ih => exact .within ih
  | attempt reads recoverable => exact .attempt (rest.reads reads) recoverable
  | extent _ ih => exact .extent ih
  | round _ ih => exact .round ih
  | later reads _ ih => exact .later (rest.reads reads) ih
  | remember _ ih => exact .remember ih
  | call _ ih => exact .call ih

/-- A rule answers alike from the whole and from the rest, whatever is remembered in either. -/
theorem sameAnswer (rest : part.IsRest setting offset) (rule : Rule) {state fresh : State}
    (agrees : state.Agrees setting) (agreesFresh : fresh.Agrees part)
    (apart : state.index = fresh.index + offset) :
    SameAnswer offset (setting.read (.call rule) state).1 (setting.read (.call rule) state).2.index
      (part.read (.call rule) fresh).1 (part.read (.call rule) fresh).2.index := by
  rcases rule.read_cases agrees with ⟨value, after, answer, reads, _⟩ | ⟨failure, after, answer, reads, _⟩
  all_goals
    rw [apart] at reads
    rcases rule.read_cases agreesFresh with
      ⟨other, last, again, readsRest, _⟩ | ⟨other, last, again, readsRest, _⟩
    all_goals
      have same := (rest.reads readsRest).unique reads
      rw [answer, again]
  · obtain ⟨rfl, stops⟩ : other = value ∧ last.index + offset = after.index := by
      simpa [Reading.shift] using same
    rw [← stops]
    exact .accepted
  · cases same
  · cases same
  · cases same
    exact .rejected

end Setting.IsRest

/-! ### Sessions -/

/-- What can become of a parser over `tokens` while it is used. -/
inductive Session (tokens : List Token) (file : String) (options : Options) : Parser → Prop
  | start : Session tokens file options (.ofTokens tokens file options)
  /-- A rule, an attempt at one, or any program made of rules. -/
  | read {parser : Parser} {α : Type} {program : Program α} :
      Session tokens file options parser → program.Keyed →
      Session tokens file options (parser.read program).2
  | reset {parser : Parser} {mark : Nat} :
      Session tokens file options parser → mark < parser.buffer.size →
      Session tokens file options (parser.reset mark)
  /-- An attempt whose part, itself some stretch of the session, ended with a failure. -/
  | giveUp {parser : Parser} {failure : Failure} {mark : Nat} :
      Session tokens file options parser → mark < parser.buffer.size →
      Session tokens file options
        { parser with state := (parser.state.note failure).moveTo mark }

namespace Session

variable {tokens : List Token} {file : String} {options : Options} {parser : Parser}

theorem setting_eq (session : Session tokens file options parser) :
    parser.setting = (Parser.ofTokens tokens file options).setting := by
  induction session with
  | start => rfl
  | read _ _ ih => exact ih
  | reset _ _ ih => exact ih
  | giveUp _ _ ih => exact ih

/-- All that is remembered agrees with the rules, and the mark stays within the buffer. -/
theorem keeps (session : Session tokens file options parser) :
    parser.state.Agrees parser.setting ∧ parser.mark < parser.buffer.size := by
  induction session with
  | start =>
      exact ⟨State.start_agrees (Parser.ofTokens tokens file options).setting, Nat.succ_pos _⟩
  | @read parser α program _ keyed ih =>
      obtain ⟨agrees, within⟩ := ih
      have follows := Program.read_follows keyed agrees
      show ((parser.setting.read program parser.state).2.Agrees parser.setting) ∧
        (parser.setting.read program parser.state).2.index < parser.buffer.size
      unfold Setting.read
      revert follows
      cases program.read parser.setting parser.state with
      | done value after => exact fun follows => ⟨follows.2.agrees, follows.2.within within⟩
      | failed failure after => exact fun follows => ⟨follows.2.agrees, follows.2.within within⟩
      | exhausted => exact fun _ => ⟨agrees, within⟩
  | reset _ within ih => exact ⟨ih.1.moveTo _, within⟩
  | giveUp _ within ih => exact ⟨(ih.1.note _).moveTo _, within⟩

end Session

/-! ### Nothing remembered -/

/-- A token list at its start, of which nothing is to be remembered. -/
def freshSetting (tokens : List Token) (file : String) (options : Options) : Setting :=
  ⟨Buffer.ofTokens tokens file, options, false⟩

/-- What a rule answers when it is run on a token list afresh and nothing is remembered. -/
def Rule.readFresh (rule : Rule) (tokens : List Token) (file : String) (options : Options) :
    Verdict rule.Node × State :=
  let setting := freshSetting tokens file options
  setting.read (.call rule) (.start setting.buffer)

/-- What becomes of a whole token list when nothing is remembered. -/
def parseFresh (tokens : List Token) (file : String) (options : Options) : Verdict Expr :=
  let setting := freshSetting tokens file options
  setting.wholeExpression (.start setting.buffer)

/-- The tokens that are left at a mark: those of the buffer, the closing one included, or those of
the list it was made of, if there is one at the mark. -/
def Remaining (tokens : List Token) (file : String) (mark : Nat) (rest : List Token) : Prop :=
  rest = (Buffer.ofTokens tokens file).toList.drop mark ∨
    (mark < tokens.length ∧ rest = tokens.drop mark)

theorem isRest_of_remaining {tokens rest : List Token} {file : String} {options : Options}
    {mark : Nat} (remaining : Remaining tokens file mark rest)
    (within : mark < (Buffer.ofTokens tokens file).size) :
    (freshSetting rest file options).IsRest (Parser.ofTokens tokens file options).setting mark := by
  refine ⟨rfl, fun index => ?_⟩
  rcases remaining with rfl | ⟨more, rfl⟩
  · have more : mark < (Buffer.ofTokens tokens file).toList.length := by
      simpa [Buffer.toList, Buffer.size] using within
    have here : (Buffer.ofTokens ((Buffer.ofTokens tokens file).toList.drop mark) file).token index =
        _ := Buffer.token_ofTokens_drop more index
    rwa [Buffer.ofTokens_toList] at here
  · exact Buffer.token_ofTokens_drop more index

/-- Furthest errors stand at one offset where the same failures were noted. -/
theorem offset_furthestError {error : Error} {failures others : List Failure}
    (same : ∀ failure, failure ∈ failures ↔ failure ∈ others) :
    (furthestError error failures).position.offset =
      (furthestError error others).position.offset := by
  unfold furthestError
  cases found : furthestFailure? failures with
  | none =>
      have none_ : others = [] := by
        have := furthestFailure?_eq_none.mp found
        subst this
        exact List.eq_nil_iff_forall_not_mem.mpr fun failure => by simp [← same]
      simp [none_, furthestFailure?]
  | some furthest =>
      cases again : furthestFailure? others with
      | none =>
          have none_ := furthestFailure?_eq_none.mp again
          have member := (same furthest).mp (mem_of_furthestFailure? found)
          rw [none_] at member
          cases member
      | some other =>
          have level : furthest.position.offset = other.position.offset := by
            refine UInt32.le_antisymm ?_ ?_
            · exact offset_le_furthestFailure again _
                ((same furthest).mp (mem_of_furthestFailure? found))
            · exact offset_le_furthestFailure found _
                ((same other).mpr (mem_of_furthestFailure? again))
          dsimp only
          rw [level]
          split
          · exact level
          · rfl

/-- Verdicts on a whole token list that differ at most in which of the furthest failures they show. -/
inductive SameVerdict : Verdict Expr → Verdict Expr → Prop
  | accepted {expr : Expr} : SameVerdict (.accepted expr) (.accepted expr)
  | rejected {error other : Error} :
      error.position.offset = other.position.offset → SameVerdict (.rejected error) (.rejected other)

theorem parse_sameVerdict (tokens : List Token) (file : String) (options : Options) :
    SameVerdict (parse tokens file options) (parseFresh tokens file options) := by
  let whole := (Parser.ofTokens tokens file options).setting
  let fresh := freshSetting tokens file options
  have onto : fresh.IsRest whole 0 := ⟨rfl, fun _ => rfl⟩
  have back : whole.IsRest fresh 0 := ⟨rfl, fun _ => rfl⟩
  show SameVerdict (whole.wholeExpression (.start whole.buffer))
    (fresh.wholeExpression (.start fresh.buffer))
  have noted {after last : State}
      (leads : (State.start whole.buffer).Leads whole (.call (.expr .expression)) after)
      (leadsFresh : (State.start fresh.buffer).Leads fresh (.call (.expr .expression)) last)
      (failure : Failure) : failure ∈ after.failures ↔ failure ∈ last.failures := by
    rw [leads.notes, leadsFresh.notes]
    exact or_congr_right ⟨back.notes, onto.notes⟩
  simp only [Setting.wholeExpression, Program.expr]
  rcases Rule.read_cases (.expr .expression) (State.start_agrees whole) with
    ⟨value, after, answer, reads, leads⟩ | ⟨failure, after, answer, reads, leads⟩
  all_goals
    rcases Rule.read_cases (.expr .expression) (State.start_agrees fresh) with
      ⟨other, last, again, readsFresh, leadsFresh⟩ | ⟨other, last, again, readsFresh, leadsFresh⟩
    all_goals
      have same := (onto.reads readsFresh).unique reads
      rw [answer, again]
  · obtain ⟨rfl, stops⟩ : other = value ∧ last.index = after.index := by
      simpa [Reading.shift] using same
    have current : whole.current after = fresh.current last := by
      simp only [Setting.current, stops]
      rfl
    simp only [current]
    split
    · exact .accepted
    · exact .rejected (offset_furthestError (noted leads leadsFresh))
  · cases same
  · cases same
  · cases same
    exact .rejected (offset_furthestError (noted leads leadsFresh))

/-- Wherever a session leads, a rule answers as it does afresh with nothing remembered; and the
verdict on a whole token list does not depend on remembering. -/
theorem remembering_transparent (tokens : List Token) (file : String) (options : Options) :
    (∀ parser, Session tokens file options parser →
      ∀ rest, Remaining tokens file parser.mark rest →
        ∀ rule : Rule,
          SameAnswer parser.mark (parser.rule rule).1 (parser.rule rule).2.mark
            (rule.readFresh rest file options).1 (rule.readFresh rest file options).2.index) ∧
      SameVerdict (parse tokens file options) (parseFresh tokens file options) := by
  refine ⟨fun parser session rest remaining rule => ?_, parse_sameVerdict tokens file options⟩
  obtain ⟨agrees, within⟩ := session.keeps
  have same := session.setting_eq
  have within : parser.mark < (Buffer.ofTokens tokens file).size :=
    (congrArg (fun setting => setting.buffer.size) same) ▸ within
  have view : (freshSetting rest file options).IsRest parser.setting parser.mark :=
    same ▸ isRest_of_remaining remaining within
  exact view.sameAnswer rule agrees (State.start_agrees _) (Nat.zero_add _).symm

/-- A parser that has read a sum and is then moved back to its right side, a product. -/
theorem remembering_transparent_behind_reset :
    let one : Token := ⟨.number, "1", default⟩
    let two : Token := ⟨.number, "2", default⟩
    let product : List Token := [two, ⟨.star, "*", default⟩, two]
    let tokens : List Token := one :: ⟨.plus, "+", default⟩ :: product
    let parser := ((Parser.ofTokens tokens "" .strict).rule (.expr .expression)).2.reset 2
    Session tokens "" .strict parser ∧
      (parser.rule (.expr .term)).1 =
        .accepted (.ofBinary (.literal .number two) .mult (.literal .number two)) ∧
      (parser.rule (.expr .term)).2.mark = 5 ∧
      SameAnswer 2 (parser.rule (.expr .term)).1 (parser.rule (.expr .term)).2.mark
        (Rule.readFresh (.expr .term) product "" .strict).1
        (Rule.readFresh (.expr .term) product "" .strict).2.index := by
  intro one two product tokens parser
  have session : Session tokens "" .strict parser := .reset (.read .start trivial) (by decide)
  have answer : (parser.rule (.expr .term)).1 =
      .accepted (.ofBinary (.literal .number two) .mult (.literal .number two)) := by
    simp only [parser, tokens, product, one, two]
    rfl
  have mark : (parser.rule (.expr .term)).2.mark = 5 := by
    simp only [parser, tokens, product, one, two]
    rfl
  refine ⟨session, answer, mark, ?_⟩
  exact (remembering_transparent tokens "" .strict).1 parser session product (.inr ⟨by decide, rfl⟩)
    (.expr .term)

end AdaExpressions
