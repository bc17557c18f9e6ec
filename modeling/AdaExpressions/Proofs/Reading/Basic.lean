import AdaExpressions.Parser.Run

/-!
# What a program reads

`Reads setting program index reading` says what a program gives when it starts at an index of the
buffer: a value with the index after it, or a failure. Nothing is remembered, no limit is set, and
it does not show where a failed part stopped. `Notes` tells which recoverable failures are noted on
the way.

Results: `reads_iff` (what is read, instruction by instruction), `Reads.unique` (a program reads at
most one thing from an index).
-/

namespace AdaExpressions

/-- What reading a program gives. -/
inductive Reading (α : Type)
  | done (value : α) (stop : Nat)
  | failed (failure : Failure)

/-- The kinds that a program sees at an index. -/
def Setting.kindsAt (setting : Setting) (index : Nat) : Kind × Kind :=
  let kind := setting.buffer.kind index
  (kind, if kind = .eof then .eof else setting.buffer.kind (index + 1))

inductive Reads (setting : Setting) : {α : Type} → Program α → Nat → Reading α → Prop
  | yield {α : Type} {value : α} {index : Nat} :
      Reads setting (.yield value) index (.done value index)
  | andThen {α β : Type} {first : Program α} {next : α → Program β} {index middle : Nat} {value : α}
      {reading : Reading β} :
      Reads setting first index (.done value middle) → Reads setting (next value) middle reading →
      Reads setting (.andThen first next) index reading
  | andThenFailed {α β : Type} {first : Program α} {next : α → Program β} {index : Nat}
      {failure : Failure} :
      Reads setting first index (.failed failure) →
      Reads setting (.andThen first next) index (.failed failure)
  | fail {α : Type} {objection : Objection} {index : Nat} :
      Reads setting (.fail objection : Program α) index
        (.failed ⟨setting.buffer.token index, objection⟩)
  | take {kind : Kind} {index : Nat} :
      setting.buffer.kind index = kind →
      Reads setting (.take kind) index
        (.done (setting.buffer.token index) (setting.buffer.next index))
  | takeFailed {kind : Kind} {index : Nat} :
      setting.buffer.kind index ≠ kind →
      Reads setting (.take kind) index (.failed ⟨setting.buffer.token index, .expected kind⟩)
  | peek {index : Nat} : Reads setting .peek index (.done (setting.kindsAt index) index)
  | forbid {violation : Violation} {token : Token} {index : Nat} :
      setting.options.rejects violation = false →
      Reads setting (.forbid violation token) index (.done () index)
  | forbidFailed {violation : Violation} {token : Token} {index : Nat} :
      setting.options.rejects violation = true →
      Reads setting (.forbid violation token) index (.failed ⟨token, .violation violation⟩)
  | attempt {α : Type} {part : Program α} {index stop : Nat} {value : α} :
      Reads setting part index (.done value stop) →
      Reads setting (.attempt part) index (.done (some value) stop)
  | attemptNone {α : Type} {part : Program α} {index : Nat} {failure : Failure} :
      Reads setting part index (.failed failure) → failure.isFatal = false →
      Reads setting (.attempt part) index (.done none index)
  | attemptFailed {α : Type} {part : Program α} {index : Nat} {failure : Failure} :
      Reads setting part index (.failed failure) → failure.isFatal = true →
      Reads setting (.attempt part) index (.failed failure)
  | extent {α : Type} {part : Program α} {index stop : Nat} {value : α} :
      Reads setting part index (.done value stop) →
      Reads setting (.extent part) index (.done (value, setting.extent index stop) stop)
  | extentFailed {α : Type} {part : Program α} {index : Nat} {failure : Failure} :
      Reads setting part index (.failed failure) →
      Reads setting (.extent part) index (.failed failure)
  | iterateStop {σ : Type} {value : σ} {step : σ → Program (Option σ)} {index stop : Nat} :
      Reads setting (step value) index (.done none stop) →
      Reads setting (.iterate value step) index (.done value stop)
  | iterateNext {σ : Type} {value next : σ} {step : σ → Program (Option σ)} {index middle : Nat}
      {reading : Reading σ} :
      Reads setting (step value) index (.done (some next) middle) →
      Reads setting (.iterate next step) middle reading →
      Reads setting (.iterate value step) index reading
  | iterateFailed {σ : Type} {value : σ} {step : σ → Program (Option σ)} {index : Nat}
      {failure : Failure} :
      Reads setting (step value) index (.failed failure) →
      Reads setting (.iterate value step) index (.failed failure)
  | remember {key : MemoKey} {rule : ExprRule} {index : Nat} {reading : Reading Expr} :
      Reads setting (.call (.expr rule)) index reading →
      Reads setting (.remember key rule) index reading
  | call {rule : Rule} {index : Nat} {reading : Reading rule.Node} :
      Reads setting rule.body index reading → Reads setting (.call rule) index reading

/-- One step into the definition of `Reads`, by the instruction that a program starts with. -/
def Program.ReadsBy (setting : Setting) :
    {α : Type} → Program α → Nat → Reading α → Prop
  | _, .yield value, index, reading => reading = .done value index
  | _, .andThen first next, index, reading =>
      (∃ value middle, Reads setting first index (.done value middle) ∧
        Reads setting (next value) middle reading) ∨
      ∃ failure, Reads setting first index (.failed failure) ∧ reading = .failed failure
  | _, .fail objection, index, reading =>
      reading = .failed ⟨setting.buffer.token index, objection⟩
  | _, .take kind, index, reading =>
      (setting.buffer.kind index = kind ∧
        reading = .done (setting.buffer.token index) (setting.buffer.next index)) ∨
      (setting.buffer.kind index ≠ kind ∧
        reading = .failed ⟨setting.buffer.token index, .expected kind⟩)
  | _, .peek, index, reading => reading = .done (setting.kindsAt index) index
  | _, .forbid violation token, index, reading =>
      (setting.options.rejects violation = false ∧ reading = .done () index) ∨
      (setting.options.rejects violation = true ∧
        reading = .failed ⟨token, .violation violation⟩)
  | _, .attempt part, index, reading =>
      (∃ value stop, Reads setting part index (.done value stop) ∧
        reading = .done (some value) stop) ∨
      ∃ failure, Reads setting part index (.failed failure) ∧
        ((failure.isFatal = false ∧ reading = .done none index) ∨
          (failure.isFatal = true ∧ reading = .failed failure))
  | _, .extent part, index, reading =>
      (∃ value stop, Reads setting part index (.done value stop) ∧
        reading = .done (value, setting.extent index stop) stop) ∨
      ∃ failure, Reads setting part index (.failed failure) ∧ reading = .failed failure
  | _, .iterate value step, index, reading =>
      (∃ stop, Reads setting (step value) index (.done none stop) ∧ reading = .done value stop) ∨
      (∃ next middle, Reads setting (step value) index (.done (some next) middle) ∧
        Reads setting (.iterate next step) middle reading) ∨
      ∃ failure, Reads setting (step value) index (.failed failure) ∧ reading = .failed failure
  | _, .remember _ rule, index, reading => Reads setting (.call (.expr rule)) index reading
  | _, .call rule, index, reading => Reads setting rule.body index reading

theorem Reads.readsBy {setting : Setting} {α : Type} {program : Program α} {index : Nat}
    {reading : Reading α} (reads : Reads setting program index reading) :
    program.ReadsBy setting index reading := by
  cases reads with
  | yield => rfl
  | andThen first next => exact .inl ⟨_, _, first, next⟩
  | andThenFailed first => exact .inr ⟨_, first, rfl⟩
  | fail => rfl
  | take found => exact .inl ⟨found, rfl⟩
  | takeFailed missing => exact .inr ⟨missing, rfl⟩
  | peek => rfl
  | forbid allowed => exact .inl ⟨allowed, rfl⟩
  | forbidFailed rejected => exact .inr ⟨rejected, rfl⟩
  | attempt part => exact .inl ⟨_, _, part, rfl⟩
  | attemptNone part recoverable => exact .inr ⟨_, part, .inl ⟨recoverable, rfl⟩⟩
  | attemptFailed part fatal => exact .inr ⟨_, part, .inr ⟨fatal, rfl⟩⟩
  | extent part => exact .inl ⟨_, _, part, rfl⟩
  | extentFailed part => exact .inr ⟨_, part, rfl⟩
  | iterateStop step => exact .inl ⟨_, step, rfl⟩
  | iterateNext step rest => exact .inr (.inl ⟨_, _, step, rest⟩)
  | iterateFailed step => exact .inr (.inr ⟨_, step, rfl⟩)
  | remember call => exact call
  | call body => exact body

theorem reads_iff {setting : Setting} {α : Type} {program : Program α} {index : Nat}
    {reading : Reading α} :
    Reads setting program index reading ↔ program.ReadsBy setting index reading := by
  refine ⟨Reads.readsBy, fun by_ => ?_⟩
  cases program with
  | yield value => cases by_; exact .yield
  | andThen first next =>
      rcases by_ with ⟨_, _, first, next⟩ | ⟨_, first, rfl⟩
      · exact .andThen first next
      · exact .andThenFailed first
  | fail objection => cases by_; exact .fail
  | take kind =>
      rcases by_ with ⟨found, rfl⟩ | ⟨missing, rfl⟩
      · exact .take found
      · exact .takeFailed missing
  | peek => cases by_; exact .peek
  | forbid violation token =>
      rcases by_ with ⟨allowed, rfl⟩ | ⟨rejected, rfl⟩
      · exact .forbid allowed
      · exact .forbidFailed rejected
  | attempt part =>
      rcases by_ with ⟨_, _, part, rfl⟩ | ⟨_, part, ⟨recoverable, rfl⟩ | ⟨fatal, rfl⟩⟩
      · exact .attempt part
      · exact .attemptNone part recoverable
      · exact .attemptFailed part fatal
  | extent part =>
      rcases by_ with ⟨_, _, part, rfl⟩ | ⟨_, part, rfl⟩
      · exact .extent part
      · exact .extentFailed part
  | iterate value step =>
      rcases by_ with ⟨_, step, rfl⟩ | ⟨_, _, step, rest⟩ | ⟨_, step, rfl⟩
      · exact .iterateStop step
      · exact .iterateNext step rest
      · exact .iterateFailed step
  | remember key rule => exact .remember by_
  | call rule => exact .call by_

/-- Two readings of a program from one index are the same. -/
theorem Reads.unique {setting : Setting} {α : Type} {program : Program α} {index : Nat}
    {reading other : Reading α} (reads : Reads setting program index reading)
    (again : Reads setting program index other) : reading = other := by
  induction reads with
  | yield => exact again.readsBy.symm
  | andThen _ _ ihFirst ihNext =>
      rcases again.readsBy with ⟨_, _, first, next⟩ | ⟨_, first, _⟩
      · cases ihFirst first
        exact ihNext next
      · cases ihFirst first
  | andThenFailed _ ihFirst =>
      rcases again.readsBy with ⟨_, _, first, _⟩ | ⟨_, first, rfl⟩
      · cases ihFirst first
      · cases ihFirst first
        rfl
  | fail => exact again.readsBy.symm
  | take found =>
      rcases again.readsBy with ⟨_, rfl⟩ | ⟨missing, _⟩
      · rfl
      · exact absurd found missing
  | takeFailed missing =>
      rcases again.readsBy with ⟨found, _⟩ | ⟨_, rfl⟩
      · exact absurd found missing
      · rfl
  | peek => exact again.readsBy.symm
  | forbid allowed =>
      rcases again.readsBy with ⟨_, rfl⟩ | ⟨rejected, _⟩
      · rfl
      · cases allowed.symm.trans rejected
  | forbidFailed rejected =>
      rcases again.readsBy with ⟨allowed, _⟩ | ⟨_, rfl⟩
      · cases allowed.symm.trans rejected
      · rfl
  | attempt _ ih =>
      rcases again.readsBy with ⟨_, _, part, rfl⟩ | ⟨_, part, _⟩
      · cases ih part
        rfl
      · cases ih part
  | attemptNone _ recoverable ih =>
      rcases again.readsBy with ⟨_, _, part, _⟩ | ⟨_, part, ⟨_, rfl⟩ | ⟨fatal, _⟩⟩
      · cases ih part
      · rfl
      · cases ih part
        cases recoverable.symm.trans fatal
  | attemptFailed _ fatal ih =>
      rcases again.readsBy with ⟨_, _, part, _⟩ | ⟨_, part, ⟨recoverable, _⟩ | ⟨_, rfl⟩⟩
      · cases ih part
      · cases ih part
        cases recoverable.symm.trans fatal
      · cases ih part
        rfl
  | extent _ ih =>
      rcases again.readsBy with ⟨_, _, part, rfl⟩ | ⟨_, part, _⟩
      · cases ih part
        rfl
      · cases ih part
  | extentFailed _ ih =>
      rcases again.readsBy with ⟨_, _, part, _⟩ | ⟨_, part, rfl⟩
      · cases ih part
      · cases ih part
        rfl
  | iterateStop _ ih =>
      rcases again.readsBy with ⟨_, step, rfl⟩ | ⟨_, _, step, _⟩ | ⟨_, step, _⟩
      · cases ih step
        rfl
      · cases ih step
      · cases ih step
  | iterateNext _ _ ihStep ihRest =>
      rcases again.readsBy with ⟨_, step, _⟩ | ⟨_, _, step, rest⟩ | ⟨_, step, _⟩
      · cases ihStep step
      · cases ihStep step
        exact ihRest rest
      · cases ihStep step
  | iterateFailed _ ih =>
      rcases again.readsBy with ⟨_, step, _⟩ | ⟨_, _, step, _⟩ | ⟨_, step, rfl⟩
      · cases ih step
      · cases ih step
      · cases ih step
        rfl
  | remember _ ih => exact ih again.readsBy
  | call _ ih => exact ih again.readsBy

/-! ### Programs written with `do` -/

section

variable {setting : Setting} {α β : Type} {index stop : Nat}

@[simp] theorem reads_pure {value : α} {reading : Reading α} :
    Reads setting (pure value) index reading ↔ reading = .done value index :=
  reads_iff

theorem reads_bind {first : Program α} {next : α → Program β} {reading : Reading β} :
    Reads setting (first >>= next) index reading ↔
      (∃ value middle, Reads setting first index (.done value middle) ∧
        Reads setting (next value) middle reading) ∨
      ∃ failure, Reads setting first index (.failed failure) ∧ reading = .failed failure :=
  reads_iff

@[simp] theorem reads_bind_done {first : Program α} {next : α → Program β} {value : β} :
    Reads setting (first >>= next) index (.done value stop) ↔
      ∃ middle found, Reads setting first index (.done middle found) ∧
        Reads setting (next middle) found (.done value stop) := by
  simp [reads_bind]

end

end AdaExpressions
