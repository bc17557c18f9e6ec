import AdaExpressions.Proofs.Reading.Run

/-!
# How far a reading looks

Two readings run on buffers that look alike up to a place: the first sees the same tokens there as
the second, the one behind the place included. They run in lockstep, down to what they remember and
note, until the first of them moves behind the place. From there it either stays behind the place,
or it fails, and then at a token behind the place; an attempt takes the failure back but notes it.
So a first reading of which no failure stands behind the place has never left the lockstep.

Results: `Program.run_alike` (one instruction keeps the lockstep), `Rule.run_alike`.
-/

namespace AdaExpressions

section

variable {setting : Setting} {α : Type} {place : Nat}

/-! ### Where failures stand -/

/-- A recoverable failure stands at the token where the program starts or at a later one. -/
theorem Reads.failed_at {program : Program α} {index : Nat} {failure : Failure}
    (reads : Reads setting program index (.failed failure))
    (recoverable : failure.isFatal = false) :
    ∃ spot, index ≤ spot ∧ (spot = index ∨ spot < setting.buffer.size) ∧
      failure.token = setting.buffer.token spot := by
  generalize result : Reading.failed failure = reading at reads
  induction reads with
  | andThen first _ _ ihNext =>
      obtain ⟨spot, behind, within, here⟩ := ihNext result
      have bounds := first.stop_bounds
      exact ⟨spot, by omega, by omega, here⟩
  | andThenFailed _ ih => cases result; exact ih rfl
  | fail => cases result; exact ⟨_, Nat.le_refl _, .inl rfl, rfl⟩
  | takeFailed _ => cases result; exact ⟨_, Nat.le_refl _, .inl rfl, rfl⟩
  | forbidFailed _ => cases result; cases recoverable
  | attemptFailed _ _ ih => cases result; exact ih rfl
  | extentFailed _ ih => cases result; exact ih rfl
  | iterateNext step _ _ ihRest =>
      obtain ⟨spot, behind, within, here⟩ := ihRest result
      have bounds := step.stop_bounds
      exact ⟨spot, by omega, by omega, here⟩
  | iterateFailed _ ih => cases result; exact ih rfl
  | remember _ ih => exact ih result
  | call _ ih => exact ih result
  | _ => cases result

/-- What a program notes is recoverable, and stands where the program starts or later. -/
theorem Notes.noted_at {program : Program α} {index : Nat} {failure : Failure}
    (notes : Notes setting program index failure) :
    failure.isFatal = false ∧ ∃ spot, index ≤ spot ∧
      (spot = index ∨ spot < setting.buffer.size) ∧
      failure.token = setting.buffer.token spot := by
  induction notes with
  | first _ ih => exact ih
  | next reads _ ih =>
      obtain ⟨recoverable, spot, behind, within, here⟩ := ih
      have bounds := reads.stop_bounds
      exact ⟨recoverable, spot, by omega, by omega, here⟩
  | within _ ih => exact ih
  | attempt reads recoverable => exact ⟨recoverable, reads.failed_at recoverable⟩
  | extent _ ih => exact ih
  | round _ ih => exact ih
  | later reads _ ih =>
      obtain ⟨recoverable, spot, behind, within, here⟩ := ih
      have bounds := reads.stop_bounds
      exact ⟨recoverable, spot, by omega, by omega, here⟩
  | remember _ ih => exact ih
  | call _ ih => exact ih

/-- The failure stands at a token behind the place. -/
def Failure.StandsBehind (failure : Failure) (setting : Setting) (place : Nat) : Prop :=
  ∃ spot, place < spot ∧ spot < setting.buffer.size ∧
    failure.token = setting.buffer.token spot

/-- A failure that stands behind the place is noted. -/
def State.NotesBehind (state : State) (setting : Setting) (place : Nat) : Prop :=
  ∃ failure ∈ state.failures, failure.StandsBehind setting place

/-- The reading is behind the place, or a failure that stands there is noted. -/
def State.Past (state : State) (setting : Setting) (place : Nat) : Prop :=
  (place < state.index ∧ state.index < setting.buffer.size) ∨ state.NotesBehind setting place

/-- An outcome that shows that the reading was behind the place, and that goes on to show it when
an attempt takes it back. A fatal failure is not taken back. -/
def Outcome.Beyond (setting : Setting) (place : Nat) : Outcome α → Prop
  | .done _ after => after.Past setting place
  | .failed failure after =>
      failure.isFatal = true ∨ failure.StandsBehind setting place ∨
        after.NotesBehind setting place
  | .exhausted => True

/-- Whatever runs from a state behind the place stays behind it or fails there. -/
theorem Outcome.Follows.beyond {program : Program α} {state : State} {outcome : Outcome α}
    (follows : outcome.Follows setting program state) (past : state.Past setting place) :
    outcome.Beyond setting place := by
  have kept {after : State} (leads : state.Leads setting program after) :
      state.NotesBehind setting place → after.NotesBehind setting place :=
    fun ⟨failure, member, behind⟩ => ⟨failure, (leads.notes failure).mpr (.inl member), behind⟩
  cases outcome with
  | exhausted => trivial
  | done value after =>
      obtain ⟨reads, leads⟩ := follows
      rcases past with ⟨behind, within⟩ | noted
      · have bounds := reads.stop_bounds
        exact .inl ⟨by omega, by omega⟩
      · exact .inr (kept leads noted)
  | failed failure after =>
      obtain ⟨reads, leads⟩ := follows
      by_cases fatal : failure.isFatal = true
      · exact .inl fatal
      rcases past with ⟨behind, within⟩ | noted
      · obtain ⟨spot, later, bound, here⟩ := reads.failed_at (eq_false_of_ne_true fatal)
        exact .inr (.inl ⟨spot, by omega, by omega, here⟩)
      · exact .inr (.inr (kept leads noted))

/-! ### Lockstep -/

/-- Two readings that look alike as long as they are not behind the place. -/
structure Setting.LooksAlike (first second : Setting) (place : Nat) : Prop where
  options : second.options = first.options
  remembers : second.remembers = first.remembers
  token : ∀ index ≤ place, second.buffer.token index = first.buffer.token index
  kindsAt : ∀ index ≤ place, second.kindsAt index = first.kindsAt index
  within : place < first.buffer.size

/-- The same is noted, and the same remembered up to the place. -/
structure State.Alike (place : Nat) (first second : State) : Prop where
  index : second.index = first.index
  near : first.index ≤ place
  failures : second.failures = first.failures
  memo : ∀ key, ∀ index ≤ place, second.memo.find? key index = first.memo.find? key index
  room : place < first.memo.rows.size ∧ place < second.memo.rows.size

/-- The outcome of a second reading beside that of the first one. -/
inductive Outcome.Alike (setting : Setting) (place : Nat) : Outcome α → Outcome α → Prop
  | done {value : α} {first second : State} :
      first.Alike place second → Alike setting place (.done value first) (.done value second)
  | failed {failure : Failure} {first second : State} :
      first.Alike place second →
      Alike setting place (.failed failure first) (.failed failure second)
  | beyond {first second : Outcome α} :
      first.Beyond setting place → Alike setting place first second
  | exhausted {first : Outcome α} : Alike setting place first .exhausted

namespace State.Alike

variable {first second : State}

theorem note (alike : first.Alike place second) (failure : Failure) :
    (first.note failure).Alike place (second.note failure) :=
  { alike with failures := congrArg (List.cons failure) alike.failures }

theorem moveTo (alike : first.Alike place second) {index : Nat} (near : index ≤ place) :
    (first.moveTo index).Alike place (second.moveTo index) :=
  { alike with index := rfl, near := near }

theorem store (alike : first.Alike place second) (key : MemoKey) {index : Nat}
    (near : index ≤ place) (result : Remembered) :
    (first.store key index result).Alike place (second.store key index result) := by
  obtain ⟨roomFirst, roomSecond⟩ := alike.room
  refine ⟨alike.index, alike.near, alike.failures, fun other spot close => ?_, ?_⟩
  · simp only [State.store]
    rw [Memo.find?_store (by omega), Memo.find?_store (by omega), alike.memo other spot close]
  · simpa only [State.store, Memo.size_store] using alike.room

/-- A value that a reading has after moving on within the buffer. -/
theorem done (alike : first.Alike place second) (value : α) {index : Nat}
    (within : index < setting.buffer.size) :
    Outcome.Alike setting place (.done value (first.moveTo index))
      (.done value (second.moveTo index)) := by
  by_cases near : index ≤ place
  · exact .done (alike.moveTo near)
  · exact .beyond (.inl ⟨Nat.lt_of_not_le near, within⟩)

end State.Alike

namespace Outcome

variable {first second : State → Outcome α} {before other : State}

theorem attempt_alike (states : before.Alike place other)
    (part : Outcome.Alike setting place (first before) (second other)) :
    Outcome.Alike setting place (attempt first before) (attempt second other) := by
  unfold attempt
  revert part
  generalize first before = outcome, second other = second_
  rintro (alike | @⟨failure, _, _, alike⟩ | beyond | _)
  · exact .done alike
  · dsimp only
    split
    next => exact .failed alike
    next =>
      rw [states.index]
      exact .done ((alike.note failure).moveTo states.near)
  · -- What stands behind the place is noted when the attempt takes it back.
    refine .beyond ?_
    cases outcome with
    | exhausted => trivial
    | done value after => exact beyond
    | failed failure after =>
        dsimp only
        split
        next fatal => exact .inl fatal
        next recoverable =>
          rcases beyond with fatal | behind | ⟨earlier, member, behind⟩
          · exact absurd fatal recoverable
          · exact .inr ⟨failure, List.mem_cons_self, behind⟩
          · exact .inr ⟨earlier, List.mem_cons_of_mem _ member, behind⟩
  · exact .exhausted

/-- The number of rounds that a reading may take does not matter as long as it is enough. -/
theorem iterate_alike {step : α → Program (Option α)}
    {run other : α → State → Outcome (Option α)}
    (follows : ∀ value state, state.Agrees setting →
      (run value state).Follows setting (step value) state)
    (alike : ∀ value first second, State.Agrees first setting → first.Alike place second →
      Outcome.Alike setting place (run value first) (other value second))
    {rounds others : Nat} {value : α} {first second : State} (agrees : first.Agrees setting)
    (states : first.Alike place second) :
    Outcome.Alike setting place (iterate run rounds value first)
      (iterate other others value second) := by
  induction rounds generalizing value first second others with
  | zero => exact .beyond trivial
  | succ rounds ih =>
      cases others with
      | zero => exact .exhausted
      | succ others =>
          have round := alike value first second agrees states
          have here := follows value first agrees
          simp only [iterate]
          revert round here
          generalize run value first = outcome, other value second = second_
          rintro (@⟨next, _, _, alike⟩ | alike | beyond | _) here
          · cases next with
            | none => exact .done alike
            | some next => exact ih here.2.agrees alike
          · exact .failed alike
          · refine .beyond ?_
            cases outcome with
            | done next after =>
                cases next with
                | none => exact beyond
                | some next => exact (iterate_follows follows here.2.agrees).beyond beyond
            | failed failure after => exact beyond
            | exhausted => trivial
          · exact .exhausted

end Outcome

namespace Setting.LooksAlike

variable {other : Setting} {first second : State}

theorem current (looks : setting.LooksAlike other place) (states : first.Alike place second) :
    other.current second = setting.current first := by
  rw [Setting.current, states.index]
  exact looks.token _ states.near

theorem kind (looks : setting.LooksAlike other place) {index : Nat} (near : index ≤ place) :
    other.buffer.kind index = setting.buffer.kind index :=
  congrArg Token.kind (looks.token index near)

theorem extent (looks : setting.LooksAlike other place) {start stop : Nat} (begins : start ≤ place)
    (ends : stop ≤ place) : other.extent start stop = setting.extent start stop := by
  have last : max start (stop - 1) ≤ place := by omega
  rw [Setting.extent, Setting.extent, looks.token _ begins, looks.token _ last]

theorem index_lt (looks : setting.LooksAlike other place) (states : first.Alike place second) :
    first.index < setting.buffer.size :=
  Nat.lt_of_le_of_lt states.near looks.within

theorem take_alike (looks : setting.LooksAlike other place) (states : first.Alike place second)
    (kind : Kind) :
    Outcome.Alike setting place (setting.take kind first) (other.take kind second) := by
  have current := looks.current states
  have next : other.buffer.next second.index = setting.buffer.next first.index := by
    rw [Buffer.next, Buffer.next, states.index, looks.kind states.near]
  simp only [Setting.take, Setting.object, current, next]
  split
  · exact states.done _ (Buffer.next_lt_size (looks.index_lt states))
  · exact .failed states

theorem forbid_alike (looks : setting.LooksAlike other place) (states : first.Alike place second)
    (violation : Violation) (token : Token) :
    Outcome.Alike setting place (setting.forbid violation token first)
      (other.forbid violation token second) := by
  simp only [Setting.forbid, looks.options]
  split
  · exact .failed states
  · exact .done states

/-- Up to the place the same results are found, and a result that is found leads both readings to
the same token. -/
theorem remember_alike (looks : setting.LooksAlike other place) {key : MemoKey}
    {run again : State → Outcome Expr} (agrees : first.Agrees setting)
    (states : first.Alike place second)
    (part : Outcome.Alike setting place (run first) (again second)) :
    Outcome.Alike setting place (setting.remember key run first)
      (other.remember key again second) := by
  simp only [Setting.remember, looks.remembers, states.index, states.memo key _ states.near]
  split
  next =>
    cases found : first.memo.find? key first.index with
    | some kept =>
        cases kept with
        | tree expr stop =>
            have reads : Reads setting _ _ (.done expr stop) := (agrees _ _ _ found).1
            have bounds := reads.stop_bounds
            have within := looks.index_lt states
            exact states.done expr (by omega)
        | failure failure => exact .failed states
    | none =>
        dsimp only
        revert part
        generalize run first = outcome, again second = second_
        rintro (alike | alike | beyond | _)
        · dsimp only
          rw [alike.index]
          exact .done (alike.store key states.near _)
        · exact .failed (alike.store key states.near _)
        · refine .beyond ?_
          cases outcome <;> exact beyond
        · exact .exhausted
  next => exact part

end Setting.LooksAlike

/-- One program on both buffers: what one instruction keeps of the lockstep. -/
theorem Program.run_alike {other : Setting} (looks : setting.LooksAlike other place)
    {call again : (rule : Rule) → State → Outcome rule.Node}
    (follows : ∀ rule state, state.Agrees setting →
      (call rule state).Follows setting (.call rule) state)
    (calls : ∀ rule first second, State.Agrees first setting → first.Alike place second →
      Outcome.Alike setting place (call rule first) (again rule second))
    {program : Program α} (keyed : program.Keyed) {first second : State}
    (agrees : first.Agrees setting) (states : first.Alike place second) :
    Outcome.Alike setting place (program.run setting call first)
      (program.run other again second) := by
  induction program generalizing first second with
  | yield value => exact .done states
  | andThen part next ihPart ihNext =>
      have here := run_follows follows keyed.1 agrees
      have step := ihPart keyed.1 agrees states
      simp only [run]
      revert here step
      generalize part.run setting call first = outcome, part.run other again second = second_
      rintro here (alike | alike | beyond | _)
      · exact ihNext _ (keyed.2 _) here.2.agrees alike
      · exact .failed alike
      · refine .beyond ?_
        cases outcome with
        | done value after =>
            exact (run_follows follows (keyed.2 value) here.2.agrees).beyond beyond
        | failed failure after => exact beyond
        | exhausted => trivial
      · exact .exhausted
  | fail objection =>
      simp only [run, Setting.object, looks.current states]
      exact .failed states
  | take kind => exact looks.take_alike states kind
  | peek =>
      have kinds : other.peek second = setting.peek first := by
        show other.kindsAt second.index = setting.kindsAt first.index
        rw [states.index]
        exact looks.kindsAt _ states.near
      simp only [run, kinds]
      exact .done states
  | forbid violation token => exact looks.forbid_alike states violation token
  | attempt part ih => exact Outcome.attempt_alike states (ih keyed agrees states)
  | extent part ih =>
      have inner := ih keyed agrees states
      simp only [run, states.index]
      revert inner
      generalize part.run setting call first = outcome, part.run other again second = second_
      rintro (alike | alike | beyond | _)
      · dsimp only
        rw [alike.index, looks.extent states.near alike.near]
        exact .done alike
      · exact .failed alike
      · refine .beyond ?_
        cases outcome <;> exact beyond
      · exact .exhausted
  | iterate value step ih =>
      exact Outcome.iterate_alike (fun value _ agrees => run_follows follows (keyed value) agrees)
        (fun value _ _ agrees states => ih value (keyed value) agrees states) agrees states
  | remember key rule => exact looks.remember_alike agrees states (calls _ _ _ agrees states)
  | call rule => exact calls rule _ _ agrees states

theorem Rule.run_alike {other : Setting} (looks : setting.LooksAlike other place)
    (depth limit : Nat) (rule : Rule) (first second : State) (agrees : first.Agrees setting)
    (states : first.Alike place second) :
    Outcome.Alike setting place (rule.run setting depth first) (rule.run other limit second) := by
  induction depth generalizing limit rule first second with
  | zero => exact .beyond trivial
  | succ depth ih =>
      cases limit with
      | zero => exact .exhausted
      | succ limit =>
          exact Program.run_alike looks (Rule.run_follows depth)
            (fun rule _ _ agrees states => ih limit rule _ _ agrees states)
            (Program.keyed_body rule) agrees states

end

end AdaExpressions
