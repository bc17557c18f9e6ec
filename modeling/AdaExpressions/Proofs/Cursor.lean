import AdaExpressions.Parser.Basic
import AdaExpressions.Proofs.Reading.Inside
import AdaExpressions.Proofs.Reading.Matching

/-!
# The cursor of a parser

A caller has the operations of a parser at hand: it moves on by one token, expects kinds, matches
words, reads constructs, attempts them, takes marks and goes back to them. What it attempts may be a
stretch of such uses itself. However a parser is used, its cursor never passes the first token that
ends the input, so every token that is looked at is one of the buffer's list.

Results: `Program.Construct.lt_stop` (a construct takes a token), `Parser.Uses.keeps` (the invariant of
all uses), `cursor_stays_inside`.
-/

namespace AdaExpressions

/-! ### Constructs -/

/-- A rule, or a part of rules that is read for itself. -/
inductive Program.Construct : {α : Type} → Program α → Prop
  | rule (rule : Rule) : Construct (.call rule)
  | ident (form : IdentForm) : Construct (Grammar.ident form)
  | staticPart : Construct Grammar.staticPart
  | fields : Construct (separated .comma (.call .aggregateAssociation))
  | caseAlternative : Construct Grammar.caseAlternative
  | constrainedSubtype : Construct Grammar.constrainedSubtype

namespace Program.Construct

open Grammar

variable {setting : Setting} {α : Type} {program : Program α}

theorem keyed (construct : program.Construct) : program.Keyed := by
  cases construct with
  | rule rule => trivial
  | ident form => simp only [Grammar.ident, keyed_bind, keyed_pure, Keyed, implies_true, and_self]
  | staticPart =>
      simp only [Grammar.staticPart, Grammar.ident, nextKind, keyed_bind, keyed_pure, Keyed,
        implies_true, and_self]
  | fields => exact keyed_separated.mpr trivial
  | caseAlternative =>
      simp only [Grammar.caseAlternative, expr, keyed_bind, keyed_pure, Keyed, implies_true,
        and_self]
  | constrainedSubtype =>
      simp only [Grammar.constrainedSubtype, expr, keyed_bind, keyed_pure, Keyed, implies_true,
        and_self]

/-- A construct that is read takes a token and stops before the end of the buffer. -/
theorem advances (construct : program.Construct) {start : Nat} :
    program.Advances setting start 17 := by
  cases construct with
  | rule rule => exact ⟨.inr ⟨rfl, rule.rank_lt⟩, fun _ _ _ moved => moved⟩
  | ident form => cases form <;> simp [Advances, Grammar.ident]
  | staticPart =>
      exact meets_staticPart.mpr ⟨fun _ within => ⟨Nat.lt_succ_self start, within⟩,
        fun _ within => ⟨Nat.lt_succ_self start, within⟩⟩
  | fields =>
      refine advances_separated (by decide) ?_ ?_ fun _ _ => And.intro
      · exact ⟨.inr ⟨rfl, by decide⟩, fun _ _ _ moved => moved⟩
      · exact fun index after within => ⟨.inl ⟨after, within⟩, fun _ _ _ moved => moved⟩
  | caseAlternative =>
      exact caseAlternative_meets (Nat.le_refl start) fun _ _ after within => ⟨after, within⟩
  | constrainedSubtype =>
      simp [Advances, Grammar.constrainedSubtype, Rule.rank, ExprRule.rank]
      grind

theorem lt_stop (construct : program.Construct) {start stop : Nat} {value : α}
    (reads : Reads setting program start (.done value stop)) : start < stop := by
  have moved : start < stop ∧ stop < setting.buffer.size :=
    Meets.of_calls (fun _ _ _ _ => Rule.stop_of_reads) construct.advances reads
  exact moved.1

end Program.Construct

/-! ### Uses -/

namespace Parser

/-- From the first parser, whose marks so far are `given`, a finite use leads to the second with its
marks. -/
inductive Uses : Parser → List Nat → Parser → List Nat → Prop
  | nothing {parser : Parser} {given : List Nat} : Uses parser given parser given
  | mark {first parser : Parser} {given marks : List Nat} :
      Uses first given parser marks → Uses first given parser (parser.mark :: marks)
  | reset {first parser : Parser} {given marks : List Nat} {mark : Nat} :
      Uses first given parser marks → mark ∈ marks → Uses first given (parser.reset mark) marks
  | advance {first parser : Parser} {given marks : List Nat} :
      Uses first given parser marks → Uses first given parser.advance.2 marks
  | expect {first parser : Parser} {given marks : List Nat} (kind : Kind) :
      Uses first given parser marks → Uses first given (parser.expect kind).2 marks
  | expectOr {first parser : Parser} {given marks : List Nat} (kind : Kind) (error : Error) :
      Uses first given parser marks → Uses first given (parser.expectOr kind error).2 marks
  | matchWords {first parser : Parser} {given marks : List Nat} (table : List (List Kind × Op)) :
      Uses first given parser marks → Uses first given (parser.matchWords table).2 marks
  | read {first parser : Parser} {given marks : List Nat} {α : Type} {program : Program α} :
      program.Construct → Uses first given parser marks →
      Uses first given (parser.read program).2 marks
  | attemptRead {first parser : Parser} {given marks : List Nat} {α : Type} {program : Program α} :
      program.Construct → Uses first given parser marks →
      Uses first given (parser.read (.attempt program)).2 marks
  /-- An attempt of a part that is itself a use, and that ends as the caller wants it to. -/
  | attempt {first parser : Parser} {given marks later : List Nat} {α : Type}
      {part : State → Outcome α} {inner after : State} :
      Uses first given parser marks → (part parser.state).Leaves inner →
      Uses parser marks { parser with state := inner } later →
      (Outcome.attempt part parser.state).Leaves after →
      Uses first given { parser with state := after } later

/-- Uses go on from one another; so what is reached inside an attempt is reached from the start. -/
theorem Uses.trans {first middle last : Parser} {given marks later : List Nat}
    (before : Uses first given middle marks) (after : Uses middle marks last later) :
    Uses first given last later := by
  induction after with
  | nothing => exact before
  | mark _ ih => exact .mark (ih before)
  | reset _ member ih => exact .reset (ih before) member
  | advance _ ih => exact .advance (ih before)
  | expect kind _ ih => exact .expect kind (ih before)
  | expectOr kind error _ ih => exact .expectOr kind error (ih before)
  | matchWords table _ ih => exact .matchWords table (ih before)
  | read construct _ ih => exact .read construct (ih before)
  | attemptRead construct _ ih => exact .attemptRead construct (ih before)
  | attempt _ leaves inner attempted ih _ => exact .attempt (ih before) leaves inner attempted

/-- To match an operator of a table is to match its words. -/
theorem Uses.matchOperator {first parser : Parser} {given marks : List Nat}
    (uses : Uses first given parser marks) (table : List Op) :
    Uses first given (parser.matchOperator table).2 marks := by
  rw [matchOperator_eq]
  exact uses.matchWords _

/-! ### What a use keeps -/

/-- A parser inside its input, as are the marks that it has given. -/
structure Safe (parser : Parser) (marks : List Nat) : Prop where
  state : parser.state.Inside parser.setting
  marks_le : ∀ mark ∈ marks, mark ≤ parser.buffer.firstEnd

variable {parser first : Parser} {given marks : List Nat} {α : Type}

/-- Where a program leaves a parser that is inside its input. -/
theorem read_inside {program : Program α} (keyed : program.Keyed)
    (inside : parser.state.Inside parser.setting) :
    (parser.read program).2.state.Inside parser.setting := by
  have stays : (program.read parser.setting parser.state).StaysInside parser.setting :=
    Program.run_inside (Rule.run_follows _) (Rule.run_inside _) keyed inside
  show (parser.setting.read program parser.state).2.Inside parser.setting
  unfold Setting.read
  revert stays
  cases program.read parser.setting parser.state with
  | done value after => exact id
  | failed failure after => exact id
  | exhausted => exact fun _ => inside

theorem Safe.read (safe : parser.Safe marks) {program : Program α} (keyed : program.Keyed) :
    (parser.read program).2.Safe marks :=
  ⟨read_inside keyed safe.state, safe.marks_le⟩

theorem Safe.moveTo (safe : parser.Safe marks) {index : Nat}
    (near : index ≤ parser.buffer.firstEnd) : (parser.reset index).Safe marks :=
  ⟨safe.state.moveTo near, safe.marks_le⟩

theorem Safe.advance (safe : parser.Safe marks) : parser.advance.2.Safe marks :=
  safe.moveTo (Buffer.next_le_firstEnd safe.state.index_le)

theorem Safe.advances {items : List α} (safe : parser.Safe marks) :
    (items.foldl (fun parser _ => parser.advance.2) parser).Safe marks ∧
      (items.foldl (fun parser _ => parser.advance.2) parser).setting = parser.setting := by
  induction items generalizing parser with
  | nil => exact ⟨safe, rfl⟩
  | cons item more ih => exact ih safe.advance

theorem Safe.matchWords (safe : parser.Safe marks) (table : List (List Kind × Op)) :
    (parser.matchWords table).2.Safe marks ∧
      (parser.matchWords table).2.setting = parser.setting := by
  unfold Parser.matchWords
  split
  · exact ⟨safe, rfl⟩
  · exact safe.advances

theorem expectOr_snd (parser : Parser) (kind : Kind) (error : Error) :
    (parser.expectOr kind error).2 = (parser.expect kind).2 := by
  unfold expectOr
  split
  next found => rw [found]
  next => rfl

/-- A use keeps a parser safe and reads the same buffer under the same options. -/
theorem Uses.keeps {last : Parser} (uses : Uses first given last marks) (safe : first.Safe given) :
    last.Safe marks ∧ last.setting = first.setting := by
  induction uses with
  | nothing => exact ⟨safe, rfl⟩
  | mark _ ih =>
      obtain ⟨here, same⟩ := ih safe
      refine ⟨⟨here.state, fun mark member => ?_⟩, same⟩
      rcases List.mem_cons.mp member with rfl | older
      · exact here.state.index_le
      · exact here.marks_le mark older
  | reset _ member ih =>
      obtain ⟨here, same⟩ := ih safe
      exact ⟨here.moveTo (here.marks_le _ member), same⟩
  | advance _ ih =>
      obtain ⟨here, same⟩ := ih safe
      exact ⟨here.advance, same⟩
  | expect kind _ ih =>
      obtain ⟨here, same⟩ := ih safe
      exact ⟨here.read (show (Program.take kind).Keyed from trivial), same⟩
  | expectOr kind error _ ih =>
      obtain ⟨here, same⟩ := ih safe
      rw [expectOr_snd]
      exact ⟨here.read (show (Program.take kind).Keyed from trivial), same⟩
  | matchWords table _ ih =>
      obtain ⟨here, same⟩ := ih safe
      obtain ⟨there, kept⟩ := here.matchWords table
      exact ⟨there, kept.trans same⟩
  | read construct _ ih =>
      obtain ⟨here, same⟩ := ih safe
      exact ⟨here.read construct.keyed, same⟩
  | @attemptRead _ _ _ _ _ program construct _ ih =>
      obtain ⟨here, same⟩ := ih safe
      exact ⟨here.read (show (Program.attempt program).Keyed from construct.keyed), same⟩
  | @attempt _ parser _ _ _ _ part inner after _ leaves _ attempted ih ihPart =>
      obtain ⟨here, same⟩ := ih safe
      -- The part is a use of its own, and its marks outlive it.
      obtain ⟨there, _⟩ := ihPart here
      have stays : (part parser.state).StaysInside parser.setting := leaves.staysInside there.state
      exact ⟨⟨(Outcome.attempt_inside here.state stays).of_leaves attempted, there.marks_le⟩, same⟩

theorem safe_ofTokens (tokens : List Token) (file : String) (options : Options) :
    (ofTokens tokens file options).Safe [] where
  state := .start (ofTokens tokens file options).setting
  marks_le _ member := by cases member

/-! ### What holds of a safe parser -/

/-- Nothing that is done with the parser here looks or leads past the end of its input. -/
structure Guarded (parser : Parser) : Prop where
  ends : parser.buffer.firstEnd < parser.buffer.toList.length
  mark_le : parser.mark ≤ parser.buffer.firstEnd
  current : parser.buffer.toList[parser.mark]? = some parser.current
  previous : (parser.buffer.toList[parser.mark - 1]?).map Token.span = some parser.previousSpan
  /-- At every moment of what is run from here the cursor is inside the input, at a token of the
  list. -/
  passes {α : Type} {program : Program α} {state : State} :
    program.Keyed →
    Passes parser.setting parser.setting.depthLimit program parser.state state →
    state.index ≤ parser.buffer.firstEnd ∧
      parser.buffer.toList[state.index]? = some (parser.setting.current state)
  advances {α : Type} {program : Program α} {value : α} {after : Parser} :
    program.Construct → parser.read program = (.accepted value, after) → parser.mark < after.mark
  attempt_stays {α : Type} {program : Program α} {after : Parser} :
    parser.read (.attempt program) = (.accepted none, after) → after.mark = parser.mark
  attemptPart_stays {α : Type} {part : State → Outcome α} {after : State} :
    Outcome.attempt part parser.state = .done none after → after.index = parser.mark
  kept {key : MemoKey} {place : Nat} {result : Remembered} :
    parser.state.memo.find? key place = some result →
    place ≤ parser.buffer.firstEnd ∧
      ∀ expr stop, result = .tree expr stop → place < stop ∧ stop ≤ parser.buffer.firstEnd
  /-- There is a row for each index, so that no result is lost. -/
  rows : parser.state.memo.rows.size = parser.buffer.toList.length
  memoCount_le : parser.memoCount ≤ 3 * parser.buffer.toList.length

/-- What a parser accepts is what the run of the program gives. -/
theorem read_accepted {program : Program α} {value : α} {after : Parser}
    (answer : parser.read program = (.accepted value, after)) :
    program.read parser.setting parser.state = .done value after.state := by
  simp only [read, Setting.read, Prod.mk.injEq] at answer
  obtain ⟨accepted, rfl⟩ := answer
  revert accepted
  cases program.read parser.setting parser.state with
  | done value after =>
      intro accepted
      cases accepted
      rfl
  | failed failure after =>
      intro accepted
      cases accepted
  | exhausted =>
      intro accepted
      cases accepted

theorem attempt_none {part : State → Outcome α} {state after : State}
    (answer : Outcome.attempt part state = .done none after) : after.index = state.index := by
  unfold Outcome.attempt at answer
  split at answer
  next => cases answer
  next =>
    split at answer
    · cases answer
    · cases answer
      rfl
  next => cases answer

theorem Safe.guarded (safe : parser.Safe marks) : parser.Guarded := by
  have inside := safe.state
  have ends : parser.buffer.firstEnd < parser.buffer.size := parser.buffer.firstEnd_lt_size
  have here : parser.mark ≤ parser.buffer.firstEnd := inside.index_le
  refine
    { ends := parser.buffer.length_toList ▸ ends
      mark_le := here
      current := Buffer.getElem?_toList (Nat.lt_of_le_of_lt here ends)
      previous := ?_
      passes := fun keyed passes => ?_
      advances := fun construct answer => ?_
      attempt_stays := fun answer => attempt_none (read_accepted answer)
      attemptPart_stays := attempt_none
      kept := fun found => ⟨inside.start_le found, fun expr stop tree => ?_⟩
      rows := parser.buffer.length_toList ▸ inside.rows
      memoCount_le := ?_ }
  · rw [Buffer.getElem?_toList (by omega)]
    rfl
  · have passed := passes.inside keyed inside
    exact ⟨passed.index_le, Buffer.getElem?_toList (Nat.lt_of_le_of_lt passed.index_le ends)⟩
  · have follows := Program.read_follows construct.keyed inside.agrees
    rw [read_accepted answer] at follows
    exact construct.lt_stop follows.1
  · exact inside.stop_of_kept (tree ▸ found)
  · have bound : parser.memoCount ≤ 3 * (parser.buffer.firstEnd + 1) := inside.memoCount_le
    have length := parser.buffer.length_toList
    omega

end Parser

/-- However a parser is used, it keeps to its buffer and to its input. -/
theorem cursor_stays_inside {tokens : List Token} {file : String} {options : Options}
    {parser : Parser} {marks : List Nat}
    (uses : Parser.Uses (.ofTokens tokens file options) [] parser marks) :
    parser.buffer = Buffer.ofTokens tokens file ∧ parser.Guarded := by
  obtain ⟨safe, same⟩ := uses.keeps (Parser.safe_ofTokens tokens file options)
  exact ⟨congrArg Setting.buffer same, safe.guarded⟩

/-- The end of the input stands between two numbers. An expression is read up to it, and the cursor
does not move on from there. -/
theorem cursor_stays_inside_between :
    let one : Token := ⟨.number, "1", default⟩
    let tokens : List Token := [one, .eof default, one]
    let fresh := Parser.ofTokens tokens "" .strict
    let parser := (fresh.rule (.expr .expression)).2.advance.2
    Parser.Uses fresh [] parser [0] ∧ parser.mark = 1 ∧
      parser.buffer = Buffer.ofTokens tokens "" ∧ parser.Guarded := by
  intro one tokens fresh parser
  have uses : Parser.Uses fresh [] parser [0] := .advance (.read (.rule _) (.mark .nothing))
  exact ⟨uses, by decide +kernel, cursor_stays_inside uses⟩

end AdaExpressions
