import AdaExpressions.Proofs.Grammar.Soundness

/-!
# Runs stay inside the input

The input ends at the first end-of-input token of the buffer, which may stand among the others. A run
moves only by taking tokens, by going back to where it stood, and by jumping to where a remembered
result stops; none of these leads past the end of the input. The invariant speaks of the kept results
too: a jump is as safe as what is kept, and what is kept is as safe as the run that gave it.

Results: `Program.run_inside` (what a run leaves is inside), `Passes.inside` (so is every state on its
way), `State.Inside.memoCount_le`.
-/

namespace AdaExpressions

/-! ### The end of the input -/

namespace Buffer

/-- The index of the first token that ends the input. -/
def firstEnd (buffer : Buffer) : Nat :=
  buffer.toList.findIdx fun token => token.kind == .eof

variable {buffer : Buffer} {index : Nat}

theorem length_toList (buffer : Buffer) : buffer.toList.length = buffer.size := by
  simp [toList, size]

/-- Within the buffer, the token at an index is an element of its list. -/
theorem getElem?_toList (within : index < buffer.size) :
    buffer.toList[index]? = some (buffer.token index) := by
  simp only [size] at within
  simp only [toList, List.getElem?_append, Array.length_toList, Array.getElem?_toList, token]
  split
  next inner => simp [inner]
  next past =>
    have last : index - buffer.body.size = 0 := by omega
    simp [last, Nat.le_of_not_lt past]

theorem firstEnd_lt_size (buffer : Buffer) : buffer.firstEnd < buffer.size := by
  rw [← length_toList]
  exact List.findIdx_lt_length_of_exists ⟨buffer.closing, by simp [toList], by
    simp [buffer.closing_kind]⟩

theorem kind_firstEnd (buffer : Buffer) : buffer.kind buffer.firstEnd = .eof := by
  have within : buffer.firstEnd < buffer.toList.length :=
    buffer.length_toList ▸ buffer.firstEnd_lt_size
  have listed := getElem?_toList buffer.firstEnd_lt_size
  rw [List.getElem?_eq_getElem within, Option.some.injEq] at listed
  have ends : (buffer.toList[buffer.firstEnd].kind == .eof) = true :=
    List.findIdx_getElem (w := within)
  rw [listed] at ends
  exact eq_of_beq ends

theorem next_le_firstEnd (near : index ≤ buffer.firstEnd) : buffer.next index ≤ buffer.firstEnd := by
  unfold next
  split
  · exact near
  next more =>
    have before : index ≠ buffer.firstEnd := fun here => more (here ▸ buffer.kind_firstEnd)
    omega

end Buffer

variable {setting : Setting} {α β : Type}

theorem Reads.stop_le_firstEnd {program : Program α} {index stop : Nat} {value : α}
    (reads : Reads setting program index (.done value stop))
    (near : index ≤ setting.buffer.firstEnd) : stop ≤ setting.buffer.firstEnd :=
  Nat.le_of_not_lt fun past => reads.kind_ne_eof _ near past setting.buffer.kind_firstEnd

/-! ### States inside the input -/

/-- The cursor stands inside the input, and so does every kept result; there is a row for each index
of the buffer. -/
structure State.Inside (state : State) (setting : Setting) : Prop where
  agrees : state.Agrees setting
  index_le : state.index ≤ setting.buffer.firstEnd
  start_le {key : MemoKey} {place : Nat} {result : Remembered} :
    state.memo.find? key place = some result → place ≤ setting.buffer.firstEnd
  rows : state.memo.rows.size = setting.buffer.size

namespace State.Inside

variable {state : State}

theorem start (setting : Setting) : (State.start setting.buffer).Inside setting where
  agrees := start_agrees setting
  index_le := Nat.zero_le _
  start_le found := by simp [State.start] at found
  rows := by simp [State.start, Memo.empty]

theorem moveTo (inside : state.Inside setting) {index : Nat}
    (near : index ≤ setting.buffer.firstEnd) : (state.moveTo index).Inside setting :=
  { inside with agrees := inside.agrees.moveTo index, index_le := near }

theorem note (inside : state.Inside setting) (failure : Failure) :
    (state.note failure).Inside setting :=
  { inside with agrees := inside.agrees.note failure }

theorem store (inside : state.Inside setting) {key : MemoKey} {index : Nat} {result : Remembered}
    (near : index ≤ setting.buffer.firstEnd)
    (agrees : (state.store key index result).Agrees setting) :
    (state.store key index result).Inside setting where
  agrees := agrees
  index_le := inside.index_le
  start_le found := by
    rcases Memo.of_find?_store found with ⟨_, rfl, _⟩ | kept
    · exact near
    · exact inside.start_le kept
  rows := by
    rw [← inside.rows]
    exact state.memo.size_store key index result

/-- A kept tree stops behind its start, inside the input. -/
theorem stop_of_kept (inside : state.Inside setting) {key : MemoKey} {place stop : Nat} {expr : Expr}
    (kept : state.memo.find? key place = some (.tree expr stop)) :
    place < stop ∧ stop ≤ setting.buffer.firstEnd := by
  have reads : Reads setting (.call (.expr key.rule)) place (.done expr stop) :=
    (inside.agrees key place _ kept).1
  exact ⟨(Rule.stop_of_reads reads).1, reads.stop_le_firstEnd (inside.start_le kept)⟩

end State.Inside

/-- Whatever state is left is inside the input. -/
def Outcome.StaysInside (setting : Setting) : Outcome α → Prop
  | .done _ after => after.Inside setting
  | .failed _ after => after.Inside setting
  | .exhausted => True

/-- An attempt of any part whose end is inside goes on there, or back to where it started. -/
theorem Outcome.attempt_inside {part : State → Outcome α} {state : State}
    (inside : state.Inside setting) (stays : (part state).StaysInside setting) :
    (Outcome.attempt part state).StaysInside setting := by
  unfold Outcome.attempt
  revert stays
  cases part state with
  | done value after => exact id
  | failed failure after =>
      intro stays
      dsimp only
      split
      · exact stays
      · exact State.Inside.moveTo (State.Inside.note stays failure) inside.index_le
  | exhausted => exact id

theorem Outcome.iterate_inside {σ : Type} {run : σ → State → Outcome (Option σ)}
    (stays : ∀ value state, state.Inside setting → (run value state).StaysInside setting)
    {rounds : Nat} {value : σ} {state : State} (inside : state.Inside setting) :
    (Outcome.iterate run rounds value state).StaysInside setting := by
  induction rounds generalizing value state with
  | zero => trivial
  | succ rounds ih =>
      have round := stays value state inside
      unfold Outcome.iterate
      split
      next found => exact (found ▸ round :)
      next next after found => exact ih (found ▸ round :)
      next found => exact (found ▸ round :)
      next => trivial

theorem Setting.remember_inside {key : MemoKey} {run : State → Outcome Expr} {state : State}
    (inside : state.Inside setting)
    (follows : (run state).Follows setting (.call (.expr key.rule)) state)
    (stays : (run state).StaysInside setting) :
    (setting.remember key run state).StaysInside setting := by
  have agrees := remember_follows inside.agrees follows
  unfold Setting.remember at agrees ⊢
  split
  next remembers =>
    rw [if_pos remembers] at agrees
    dsimp only at agrees ⊢
    split
    -- The jump leads to where a kept tree stops, which the invariant bounds.
    next kept => exact inside.moveTo (inside.stop_of_kept kept).2
    next => exact inside
    next absent =>
      rw [absent] at agrees
      revert agrees stays
      cases run state with
      | done expr after =>
          exact fun stays agrees => State.Inside.store stays inside.index_le agrees.2.agrees
      | failed failure after =>
          exact fun stays agrees => State.Inside.store stays inside.index_le agrees.2.agrees
      | exhausted => exact fun _ _ => trivial
  next => exact stays

/-- Where the calls follow their rules and stay inside, a run stays inside. -/
theorem Program.run_inside {call : (rule : Rule) → State → Outcome rule.Node}
    (follows : ∀ rule state, state.Agrees setting →
      (call rule state).Follows setting (.call rule) state)
    (calls : ∀ rule state, state.Inside setting → (call rule state).StaysInside setting)
    {program : Program α} (keyed : program.Keyed) {state : State} (inside : state.Inside setting) :
    (program.run setting call state).StaysInside setting := by
  induction program generalizing state with
  | yield value => exact inside
  | andThen first next ihFirst ihNext =>
      have staysFirst := ihFirst keyed.1 inside
      unfold run
      revert staysFirst
      cases first.run setting call state with
      | done value middle => exact fun inside => ihNext value (keyed.2 value) inside
      | failed failure after => exact id
      | exhausted => exact id
  | fail objection => exact inside
  | take kind =>
      unfold run Setting.take
      dsimp only
      split
      · exact inside.moveTo (Buffer.next_le_firstEnd inside.index_le)
      · exact inside
  | peek => exact inside
  | forbid violation token =>
      unfold run Setting.forbid
      split
      · exact inside
      · exact inside
  | attempt part ih => exact Outcome.attempt_inside inside (ih keyed inside)
  | extent part ih =>
      have stays := ih keyed inside
      unfold run
      revert stays
      cases part.run setting call state with
      | done value after => exact id
      | failed failure after => exact id
      | exhausted => exact id
  | iterate value step ih =>
      exact Outcome.iterate_inside (fun value _ => ih value (keyed value)) inside
  | remember key rule =>
      obtain rfl : rule = key.rule := keyed
      exact Setting.remember_inside inside (follows _ _ inside.agrees) (calls _ _ inside)
  | call rule => exact calls rule state inside

theorem Rule.run_inside (depth : Nat) (rule : Rule) (state : State) (inside : state.Inside setting) :
    (rule.run setting depth state).StaysInside setting := by
  induction depth generalizing rule state with
  | zero => trivial
  | succ depth ih =>
      exact Program.run_inside (Rule.run_follows depth) ih (Program.keyed_body rule) inside

/-! ### The states on the way -/

/-- The run ended in this state, with a value or with a failure. -/
inductive Outcome.Leaves : Outcome α → State → Prop
  | done {value : α} {state : State} : Leaves (.done value state) state
  | failed {failure : Failure} {state : State} : Leaves (.failed failure state) state

theorem Outcome.StaysInside.of_leaves {outcome : Outcome α} {last : State}
    (stays : outcome.StaysInside setting) (leaves : outcome.Leaves last) : last.Inside setting := by
  cases leaves with
  | done => exact stays
  | failed => exact stays

theorem Outcome.Leaves.staysInside {outcome : Outcome α} {last : State}
    (leaves : outcome.Leaves last) (inside : last.Inside setting) : outcome.StaysInside setting := by
  cases leaves with
  | done => exact inside
  | failed => exact inside

/-- A run of the program from the first state, with calls at most `depth` deep, is in the second state
at some moment. -/
inductive Passes (setting : Setting) : Nat → {α : Type} → Program α → State → State → Prop
  | start {depth : Nat} {α : Type} {program : Program α} {state : State} :
      Passes setting depth program state state
  | stop {depth : Nat} {α : Type} {program : Program α} {state last : State} :
      (program.run setting (Rule.run setting depth) state).Leaves last →
      Passes setting depth program state last
  | first {depth : Nat} {α β : Type} {first : Program α} {next : α → Program β}
      {state passed : State} :
      Passes setting depth first state passed →
      Passes setting depth (.andThen first next) state passed
  | next {depth : Nat} {α β : Type} {first : Program α} {next : α → Program β} {value : α}
      {state middle passed : State} :
      first.run setting (Rule.run setting depth) state = .done value middle →
      Passes setting depth (next value) middle passed →
      Passes setting depth (.andThen first next) state passed
  | attempt {depth : Nat} {α : Type} {part : Program α} {state passed : State} :
      Passes setting depth part state passed → Passes setting depth (.attempt part) state passed
  | extent {depth : Nat} {α : Type} {part : Program α} {state passed : State} :
      Passes setting depth part state passed → Passes setting depth (.extent part) state passed
  | round {depth : Nat} {σ : Type} {value : σ} {step : σ → Program (Option σ)}
      {state passed : State} :
      Passes setting depth (step value) state passed →
      Passes setting depth (.iterate value step) state passed
  | later {depth : Nat} {σ : Type} {value next : σ} {step : σ → Program (Option σ)}
      {state middle passed : State} :
      (step value).run setting (Rule.run setting depth) state = .done (some next) middle →
      Passes setting depth (.iterate next step) middle passed →
      Passes setting depth (.iterate value step) state passed
  | remember {depth : Nat} {key : MemoKey} {rule : ExprRule} {state passed : State} :
      (setting.remembers = true → state.memo.find? key state.index = none) →
      Passes setting depth (.call (.expr rule)) state passed →
      Passes setting depth (.remember key rule) state passed
  | call {depth : Nat} {rule : Rule} {state passed : State} :
      Passes setting depth rule.body state passed →
      Passes setting (depth + 1) (.call rule) state passed

/-- Every state that a run passes is inside the input. -/
theorem Passes.inside {depth : Nat} {program : Program α} {state passed : State}
    (passes : Passes setting depth program state passed) (keyed : program.Keyed)
    (inside : state.Inside setting) : passed.Inside setting := by
  have runs {depth : Nat} {α : Type} {program : Program α} {state last : State}
      (keyed : program.Keyed) (inside : state.Inside setting)
      (leaves : (program.run setting (Rule.run setting depth) state).Leaves last) :
      last.Inside setting :=
    (Program.run_inside (Rule.run_follows depth) (Rule.run_inside depth) keyed inside).of_leaves
      leaves
  induction passes with
  | start => exact inside
  | stop leaves => exact runs keyed inside leaves
  | first _ ih => exact ih keyed.1 inside
  | next found _ ih => exact ih (keyed.2 _) (runs keyed.1 inside (found ▸ Outcome.Leaves.done))
  | attempt _ ih => exact ih keyed inside
  | extent _ ih => exact ih keyed inside
  | round _ ih => exact ih (keyed _) inside
  | later found _ ih => exact ih keyed (runs (keyed _) inside (found ▸ Outcome.Leaves.done))
  | remember _ _ ih => exact ih trivial inside
  | call _ ih => exact ih (Program.keyed_body _) inside

/-! ### How many results are kept -/

theorem MemoRow.count_eq_zero {row : MemoRow} (none_ : ∀ key, row.find? key = none) :
    row.count = 0 := by
  have expression := none_ .expression
  have simpleExpr := none_ .simpleExpr
  have primary := none_ .primary
  simp_all [MemoRow.find?, MemoRow.count]

/-- Where no result is kept from an index on, there are at most three for each index before. -/
theorem Memo.count_le_of_kept {memo : Memo} {bound : Nat}
    (kept : ∀ key place result, memo.find? key place = some result → place < bound) :
    memo.count ≤ 3 * bound := by
  have sums (rows : List MemoRow) (bound start : Nat)
      (far : ∀ place row, rows[place]? = some row → bound ≤ place → row.count = 0) :
      rows.foldl (fun sum row => sum + row.count) start ≤ start + 3 * bound := by
    induction rows generalizing bound start with
    | nil => exact Nat.le_add_right _ _
    | cons row more ih =>
        have here : row.count ≤ 3 := row.count_le
        cases bound with
        | zero =>
            have none_ : row.count = 0 := far 0 row rfl (Nat.le_refl 0)
            have rest := ih 0 start fun place row found _ => far (place + 1) row found (Nat.zero_le _)
            simpa [none_] using rest
        | succ bound =>
            have rest := ih bound (start + row.count) fun place row found past =>
              far (place + 1) row found (Nat.succ_le_succ past)
            simp only [List.foldl_cons]
            omega
  have far (place : Nat) (row : MemoRow) (found : memo.rows.toList[place]? = some row)
      (past : bound ≤ place) : row.count = 0 := by
    refine MemoRow.count_eq_zero fun key => Option.eq_none_iff_forall_ne_some.mpr ?_
    intro result here
    rw [Array.getElem?_toList] at found
    have before : place < bound := kept key place result (by simp [Memo.find?, found, here])
    omega
  simpa [Memo.count] using sums memo.rows.toList bound 0 far

theorem State.Inside.memoCount_le {state : State} (inside : state.Inside setting) :
    state.memo.count ≤ 3 * (setting.buffer.firstEnd + 1) :=
  Memo.count_le_of_kept fun _ _ _ found => Nat.lt_succ_of_le (inside.start_le found)

end AdaExpressions
