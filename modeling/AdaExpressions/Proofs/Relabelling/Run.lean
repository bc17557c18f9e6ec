import AdaExpressions.Proofs.Reading.Run
import AdaExpressions.Proofs.Relabelling.Rules

/-!
# Runs on relabelled tokens

On a relabelled buffer a run does what it does on the buffer: it takes the same branches, moves to
the same indices, remembers the relabelled results and fails at the relabelled tokens. What becomes
of a whole expression is relabelled too if every token keeps its offset; without that, only which of
two recoverable errors is shown may change.

Results: `Program.Relabels.run` (one instruction), `Rule.run_relabel`, `Reads.relabel`,
`Setting.wholeExpression_relabel`.
-/

namespace AdaExpressions

/-! ### What is relabelled -/

def Buffer.relabel (labels : Relabelling) (buffer : Buffer) : Buffer :=
  ⟨buffer.body.map labels.token, labels.token buffer.closing, buffer.closing_kind⟩

def Failure.relabel (labels : Relabelling) (failure : Failure) : Failure :=
  ⟨labels.token failure.token, failure.objection⟩

def Remembered.relabel (labels : Relabelling) : Remembered → Remembered
  | .tree expr stop => .tree (expr.relabel labels) stop
  | .failure failed => .failure (failed.relabel labels)

def MemoRow.relabel (labels : Relabelling) (row : MemoRow) : MemoRow :=
  ⟨row.expression.map (Remembered.relabel labels), row.simpleExpr.map (Remembered.relabel labels),
    row.primary.map (Remembered.relabel labels)⟩

def Memo.relabel (labels : Relabelling) (memo : Memo) : Memo :=
  ⟨memo.rows.map (MemoRow.relabel labels)⟩

def State.relabel (labels : Relabelling) (state : State) : State :=
  ⟨state.index, state.memo.relabel labels, state.failures.map (Failure.relabel labels)⟩

def Setting.relabel (labels : Relabelling) (setting : Setting) : Setting :=
  { setting with buffer := setting.buffer.relabel labels }

def Outcome.relabel (labels : Relabelling) {α : Type} (f : α → α) : Outcome α → Outcome α
  | .done value after => .done (f value) (after.relabel labels)
  | .failed failure after => .failed (failure.relabel labels) (after.relabel labels)
  | .exhausted => .exhausted

def Reading.relabel (labels : Relabelling) {α : Type} (f : α → α) : Reading α → Reading α
  | .done value stop => .done (f value) stop
  | .failed failure => .failed (failure.relabel labels)

def Cause.relabel (labels : Relabelling) : Cause → Cause
  | .unrecognised token => .unrecognised (labels.text token)
  | .unexpected token => .unexpected (labels.text token)
  | .unexpectedBecause token message => .unexpectedBecause (labels.text token) message
  | .noAlternative rule alternatives token => .noAlternative rule alternatives (labels.text token)
  | .trailing token => .trailing (labels.text token)
  | .chained operator => .chained operator
  | .mixed first second => .mixed first second

def Error.relabel (labels : Relabelling) (error : Error) : Error :=
  ⟨error.cause.relabel labels, labels.position error.position⟩

def Verdict.relabel (labels : Relabelling) {α : Type} (f : α → α) : Verdict α → Verdict α
  | .accepted value => .accepted (f value)
  | .rejected error => .rejected (error.relabel labels)
  | .undecided => .undecided

section

variable {labels : Relabelling} {setting : Setting} {α : Type} {f : α → α}

/-! ### Buffers -/

@[simp] theorem Buffer.size_relabel (buffer : Buffer) :
    (buffer.relabel labels).size = buffer.size := by
  simp [size, relabel]

@[simp] theorem Buffer.token_relabel (buffer : Buffer) (index : Nat) :
    (buffer.relabel labels).token index = labels.token (buffer.token index) := by
  simp only [token, relabel, Array.getElem?_map]
  cases buffer.body[index]? <;> rfl

@[simp] theorem Buffer.kind_relabel (buffer : Buffer) (index : Nat) :
    (buffer.relabel labels).kind index = buffer.kind index := by
  rw [kind, token_relabel]
  rfl

@[simp] theorem Buffer.next_relabel (buffer : Buffer) (index : Nat) :
    (buffer.relabel labels).next index = buffer.next index := by
  rw [next, kind_relabel, next]

/-! ### States -/

theorem State.relabel_start (buffer : Buffer) :
    (State.start buffer).relabel labels = .start (buffer.relabel labels) := by
  simp only [relabel, start, Buffer.size_relabel, Memo.relabel, Memo.empty, Array.map_replicate]
  rfl

theorem MemoRow.find?_relabel (row : MemoRow) (key : MemoKey) :
    (row.relabel labels).find? key = (row.find? key).map (Remembered.relabel labels) := by
  cases key <;> rfl

theorem MemoRow.relabel_store (row : MemoRow) (key : MemoKey) (result : Remembered) :
    (row.store key result).relabel labels =
      (row.relabel labels).store key (result.relabel labels) := by
  cases key <;> rfl

theorem Memo.find?_relabel (memo : Memo) (key : MemoKey) (index : Nat) :
    (memo.relabel labels).find? key index =
      (memo.find? key index).map (Remembered.relabel labels) := by
  simp only [find?, relabel, Array.getElem?_map]
  cases memo.rows[index]? with
  | none => rfl
  | some row => exact row.find?_relabel key

theorem Memo.relabel_store (memo : Memo) (key : MemoKey) (index : Nat) (result : Remembered) :
    (memo.store key index result).relabel labels =
      (memo.relabel labels).store key index (result.relabel labels) := by
  refine congrArg Memo.mk (Array.ext_getElem? fun place => ?_)
  simp only [store, relabel, Array.getElem?_map, Array.getElem?_modify]
  cases memo.rows[place]? with
  | none => simp
  | some row =>
      split
      next => exact congrArg some (row.relabel_store key result)
      next => rfl

theorem State.relabel_store (state : State) (key : MemoKey) (index : Nat) (result : Remembered) :
    (state.store key index result).relabel labels =
      (state.relabel labels).store key index (result.relabel labels) := by
  simp only [store, relabel, Memo.relabel_store]

/-! ### One instruction -/

theorem Setting.current_relabel (state : State) :
    (setting.relabel labels).current (state.relabel labels) =
      labels.token (setting.current state) :=
  setting.buffer.token_relabel state.index

theorem Setting.take_relabel (kind : Kind) (state : State) :
    (setting.relabel labels).take kind (state.relabel labels) =
      (setting.take kind state).relabel labels labels.token := by
  have moved : (state.relabel labels).moveTo
      ((setting.relabel labels).buffer.next (state.relabel labels).index) =
        (state.moveTo (setting.buffer.next state.index)).relabel labels := by
    rw [Setting.relabel, Buffer.next_relabel]
    rfl
  simp only [take, object, current_relabel, moved]
  show (if (setting.current state).kind = kind then _ else _) = _
  split <;> rfl

theorem Setting.peek_relabel (state : State) :
    (setting.relabel labels).peek (state.relabel labels) = setting.peek state := by
  simp only [peek, relabel, Buffer.kind_relabel]
  rfl

theorem Setting.forbid_relabel (violation : Violation) (token : Token) (state : State) :
    (setting.relabel labels).forbid violation (labels.token token) (state.relabel labels) =
      (setting.forbid violation token state).relabel labels id := by
  unfold forbid
  show (if setting.options.rejects violation then _ else _) = _
  split <;> rfl

theorem Setting.extent_relabel (start stop : Nat) :
    (setting.relabel labels).extent start stop = labels.extent (setting.extent start stop) := by
  simp only [extent, relabel, Buffer.token_relabel]
  rfl

theorem Setting.remember_relabel {key : MemoKey} {part again : State → Outcome Expr}
    {state : State}
    (same : again (state.relabel labels) = (part state).relabel labels (Expr.relabel labels)) :
    (setting.relabel labels).remember key again (state.relabel labels) =
      (setting.remember key part state).relabel labels (Expr.relabel labels) := by
  have index : (state.relabel labels).index = state.index := rfl
  have found : (state.relabel labels).memo.find? key state.index =
      (state.memo.find? key state.index).map (Remembered.relabel labels) :=
    state.memo.find?_relabel key state.index
  simp only [remember, index, found, same]
  show (if setting.remembers then _ else _) = _
  split
  next =>
    cases state.memo.find? key state.index with
    | some kept => cases kept <;> rfl
    | none =>
        cases part state with
        | done expr after =>
            exact congrArg (Outcome.done (expr.relabel labels))
              (after.relabel_store key state.index (.tree expr after.index)).symm
        | failed failure after =>
            exact congrArg (Outcome.failed (failure.relabel labels))
              (after.relabel_store key state.index (.failure failure)).symm
        | exhausted => rfl
  next => rfl

theorem Outcome.attempt_relabel {part again : State → Outcome α} {state : State}
    (same : again (state.relabel labels) = (part state).relabel labels f) :
    attempt again (state.relabel labels) =
      (attempt part state).relabel labels (Option.map f) := by
  simp only [attempt, same]
  cases part state with
  | done value after => rfl
  | failed failure after =>
      simp only [relabel]
      show (if failure.isFatal = true then _ else _) = _
      split <;> rfl
  | exhausted => rfl

theorem Outcome.iterate_relabel {step again : α → State → Outcome (Option α)}
    (same : ∀ value state, again (f value) (state.relabel labels) =
      (step value state).relabel labels (Option.map f)) (rounds : Nat) (value : α) (state : State) :
    iterate again rounds (f value) (state.relabel labels) =
      (iterate step rounds value state).relabel labels f := by
  induction rounds generalizing value state with
  | zero => rfl
  | succ rounds ih =>
      simp only [iterate, same]
      cases step value state with
      | done next after =>
          cases next with
          | none => rfl
          | some next => exact ih next after
      | failed failure after => rfl
      | exhausted => rfl

/-! ### Runs -/

/-- Where the calls of two runs are relabelled alike, the runs are. -/
theorem Program.Relabels.run {call again : (rule : Rule) → State → Outcome rule.Node}
    (calls : ∀ rule state, again rule (state.relabel labels) =
      (call rule state).relabel labels (rule.relabel labels))
    {program other : Program α} (relabels : Relabels labels f program other) (state : State) :
    other.run (setting.relabel labels) again (state.relabel labels) =
      (program.run setting call state).relabel labels f := by
  induction relabels generalizing state with
  | yield => rfl
  | andThen _ _ ihFirst ihNext =>
      simp only [Program.run, ihFirst]
      cases Program.run setting call _ state with
      | done value after => exact ihNext value after
      | failed failure after => rfl
      | exhausted => rfl
  | fail objection => simp only [Program.run, Setting.object, Setting.current_relabel]; rfl
  | take kind => exact Setting.take_relabel kind state
  | peek => simp only [Program.run, Setting.peek_relabel]; rfl
  | forbid violation token => exact Setting.forbid_relabel violation token state
  | attempt _ ih => exact Outcome.attempt_relabel (ih state)
  | extent _ ih =>
      simp only [Program.run, ih]
      cases Program.run setting call _ state with
      | done value after =>
          have whole : (setting.relabel labels).extent state.index after.index =
              labels.extent (setting.extent state.index after.index) :=
            Setting.extent_relabel _ _
          simp only [Outcome.relabel, State.relabel, whole]
          rfl
      | failed failure after => rfl
      | exhausted => rfl
  | iterate value _ ih =>
      have rounds : (setting.relabel labels).buffer.size = setting.buffer.size :=
        setting.buffer.size_relabel
      simp only [Program.run, rounds]
      exact Outcome.iterate_relabel ih _ value state
  | remember key rule => exact Setting.remember_relabel (calls (.expr rule) state)
  | call rule => exact calls rule state

theorem Rule.run_relabel (depth : Nat) (rule : Rule) (state : State) :
    rule.run (setting.relabel labels) depth (state.relabel labels) =
      (rule.run setting depth state).relabel labels (rule.relabel labels) := by
  induction depth generalizing rule state with
  | zero => rfl
  | succ depth ih => exact rule.body_relabels.run ih state

theorem Program.Relabels.read {program other : Program α}
    (relabels : Relabels labels f program other) (state : State) :
    other.read (setting.relabel labels) (state.relabel labels) =
      (program.read setting state).relabel labels f := by
  have limit : (setting.relabel labels).depthLimit = setting.depthLimit :=
    congrArg (fun size => 32 * (size + 1)) setting.buffer.size_relabel
  simp only [Program.read, limit]
  exact relabels.run (Rule.run_relabel _) state

/-- What a rule reads from a buffer, it reads from the relabelled one. -/
theorem Reads.relabel {rule : Rule} {index : Nat} {reading : Reading rule.Node}
    (reads : Reads setting (.call rule) index reading) :
    Reads (setting.relabel labels) (.call rule) index
      (reading.relabel labels (rule.relabel labels)) := by
  let start (setting : Setting) : State := (State.start setting.buffer).moveTo index
  have agrees (setting : Setting) : (start setting).Agrees setting :=
    (State.start_agrees setting).moveTo index
  have keyed : (Program.call rule).Keyed := trivial
  have follows := Program.read_follows keyed (agrees setting)
  have again := Program.read_follows keyed (agrees (setting.relabel labels))
  have same : (Program.call rule).read (setting.relabel labels) ((start setting).relabel labels) =
      ((Program.call rule).read setting (start setting)).relabel labels (rule.relabel labels) :=
    (Program.Relabels.call rule).read (start setting)
  have moved : (start setting).relabel labels = start (setting.relabel labels) :=
    congrArg (State.moveTo · index) (State.relabel_start setting.buffer)
  have meets : (Program.call rule).Meets setting (moving setting) index fun _ _ => True :=
    ⟨trivial, fun _ _ _ _ => trivial⟩
  have runs := Program.read_ne_exhausted keyed (agrees setting) meets
  rw [moved] at same
  rw [same] at again
  revert follows again runs
  cases (Program.call rule).read setting (start setting) with
  | done value after =>
      intro follows again _
      cases reads.unique follows.1
      exact again.1
  | failed failure after =>
      intro follows again _
      cases reads.unique follows.1
      exact again.1
  | exhausted => exact fun _ _ runs => absurd rfl runs

/-! ### Whole expressions -/

@[simp] theorem Cause.name_relabel (cause : Cause) : (cause.relabel labels).name = cause.name := by
  cases cause <;> rfl

@[simp] theorem Cause.isFatal_relabel (cause : Cause) :
    (cause.relabel labels).isFatal = cause.isFatal := by
  cases cause <;> rfl

theorem Failure.error_relabel (failure : Failure) :
    (failure.relabel labels).error = failure.error.relabel labels := by
  obtain ⟨token, objection⟩ := failure
  match objection with
  | .expected _ => rfl
  | .noAlternative _ _ => rfl
  | .violation (.chained _) => rfl
  | .violation (.mixed _ _) => rfl

/-- No position moves to another offset. -/
def Relabelling.KeepsOffsets (labels : Relabelling) : Prop :=
  ∀ position, (labels.position position).offset = position.offset

theorem furthestFailure?_relabel (keeps : labels.KeepsOffsets) (failures : List Failure) :
    furthestFailure? (failures.map (Failure.relabel labels)) =
      (furthestFailure? failures).map (Failure.relabel labels) := by
  induction failures with
  | nil => rfl
  | cons latest earlier ih =>
      have whole : furthestFailure? ((latest :: earlier).map (Failure.relabel labels)) =
          some ((latest.relabel labels).further
            (furthestFailure? (earlier.map (Failure.relabel labels)))) := rfl
      have offset (failure : Failure) :
          (failure.relabel labels).position.offset = failure.position.offset :=
        keeps failure.position
      rw [whole, ih]
      show _ = some ((latest.further (furthestFailure? earlier)).relabel labels)
      cases furthestFailure? earlier with
      | none => rfl
      | some kept =>
          simp only [Option.map_some, Failure.further, offset]
          split <;> rfl

theorem furthestError_relabel (keeps : labels.KeepsOffsets) (error : Error)
    (failures : List Failure) :
    furthestError (error.relabel labels) (failures.map (Failure.relabel labels)) =
      (furthestError error failures).relabel labels := by
  have fatal : (error.relabel labels).isFatal = error.isFatal := error.cause.isFatal_relabel
  have offset : (error.relabel labels).position.offset = error.position.offset :=
    keeps error.position
  simp only [furthestError, furthestFailure?_relabel keeps]
  cases furthestFailure? failures with
  | none => rfl
  | some furthest =>
      have further : (furthest.relabel labels).position.offset = furthest.position.offset :=
        keeps furthest.position
      simp only [Option.map_some, fatal, offset, further, Failure.error_relabel]
      split <;> rfl

/-- Where no token changes its offset, the verdict on relabelled tokens is the relabelled one. -/
theorem Setting.wholeExpression_relabel (keeps : labels.KeepsOffsets) (state : State) :
    (setting.relabel labels).wholeExpression (state.relabel labels) =
      (setting.wholeExpression state).relabel labels (Expr.relabel labels) := by
  have same : (Program.expr .expression).read (setting.relabel labels) (state.relabel labels) =
      ((Program.expr .expression).read setting state).relabel labels (Expr.relabel labels) :=
    (Program.Relabels.expr .expression).read state
  simp only [wholeExpression, Setting.read, same]
  cases (Program.expr .expression).read setting state with
  | done value after =>
      have current : (setting.relabel labels).current (after.relabel labels) =
          labels.token (setting.current after) := Setting.current_relabel after
      simp only [Outcome.relabel, current]
      show (if (setting.current after).kind = .eof then _ else _) = _
      split
      next => rfl
      next =>
        exact congrArg Verdict.rejected (furthestError_relabel keeps
          ⟨.trailing (setting.current after).text, (setting.current after).span.start⟩
          after.failures)
  | failed failure after =>
      have error := furthestError_relabel keeps failure.error after.failures
      rw [← Failure.error_relabel] at error
      exact congrArg Verdict.rejected error
  | exhausted => rfl

theorem Buffer.toList_relabel (buffer : Buffer) :
    (buffer.relabel labels).toList = buffer.toList.map labels.token := by
  simp [toList, relabel]

theorem parse_relabel (keeps : labels.KeepsOffsets) (buffer : Buffer) (file : String)
    (options : Options) :
    parse (buffer.toList.map labels.token) file options =
      (parse buffer.toList file options).relabel labels (Expr.relabel labels) := by
  have whole (buffer : Buffer) : parse buffer.toList file options =
      (⟨buffer, options, true⟩ : Setting).wholeExpression (.start buffer) := by
    simp only [parse, Parser.ofTokens, Buffer.ofTokens_toList]
    rfl
  rw [← Buffer.toList_relabel, whole, whole, ← State.relabel_start]
  let setting : Setting := ⟨buffer, options, true⟩
  have same : (setting.relabel labels).wholeExpression ((State.start buffer).relabel labels) =
      (setting.wholeExpression (.start buffer)).relabel labels (Expr.relabel labels) :=
    Setting.wholeExpression_relabel keeps (.start buffer)
  exact same

end

end AdaExpressions
