import AdaExpressions.Grammar.Body
import AdaExpressions.Parser.State

/-!
# Running rules

A program runs on a buffer from a state to an outcome: a value or a failure, each with the state it
leaves, or the news that a limit is exhausted. Calls nest up to a limit, and a repetition goes on for
at most as many rounds as there are tokens; both are more than any rule needs. A rule is run by
running its body with the limit on calls lowered by one.

Remembering can be switched off. A reading then gives the same trees and fails at the same tokens,
at the price of running rules again.
-/

namespace AdaExpressions

/-- What stays the same during a reading. -/
structure Setting where
  buffer : Buffer
  options : Options
  remembers : Bool

inductive Outcome (α : Type)
  | done (value : α) (state : State)
  | failed (failure : Failure) (state : State)
  | exhausted

namespace Outcome

/-- Undoes a part that failed recoverably and notes its failure. -/
def attempt {α : Type} (part : State → Outcome α) (state : State) : Outcome (Option α) :=
  match part state with
  | .done value after => .done (some value) after
  | .failed failure after =>
      if failure.isFatal then .failed failure after
      else .done none ((after.note failure).moveTo state.index)
  | .exhausted => .exhausted

/-- Repeats a step until it yields nothing, at most `rounds` times. -/
def iterate {σ : Type} (step : σ → State → Outcome (Option σ)) : Nat → σ → State → Outcome σ
  | 0, _, _ => .exhausted
  | rounds + 1, value, state =>
      match step value state with
      | .done none after => .done value after
      | .done (some value) after => iterate step rounds value after
      | .failed failure after => .failed failure after
      | .exhausted => .exhausted

end Outcome

namespace Setting

variable (setting : Setting)

def current (state : State) : Token :=
  setting.buffer.token state.index

/-- Fails at the current token. -/
def object {α : Type} (objection : Objection) (state : State) : Outcome α :=
  .failed ⟨setting.current state, objection⟩ state

def take (kind : Kind) (state : State) : Outcome Token :=
  let token := setting.current state
  if token.kind = kind then .done token (state.moveTo (setting.buffer.next state.index))
  else setting.object (.expected kind) state

/-- The kinds of the current token and the next. Nothing is seen past the end of the input. -/
def peek (state : State) : Kind × Kind :=
  let kind := setting.buffer.kind state.index
  (kind, if kind = .eof then .eof else setting.buffer.kind (state.index + 1))

def forbid (violation : Violation) (token : Token) (state : State) : Outcome Unit :=
  if setting.options.rejects violation then .failed ⟨token, .violation violation⟩ state
  else .done () state

/-- The tokens from index `start` up to index `stop`. -/
def extent (start stop : Nat) : Extent :=
  ⟨setting.buffer.token start, setting.buffer.token (max start (stop - 1))⟩

/-- Looks a result up by key and index before running a part, and stores what the part gives. -/
def remember (key : MemoKey) (part : State → Outcome Expr) (state : State) : Outcome Expr :=
  if setting.remembers then
    let index := state.index
    match state.memo.find? key index with
    | some (.tree expr stop) => .done expr (state.moveTo stop)
    | some (.failure failure) => .failed failure state
    | none => match part state with
      | .done expr after => .done expr (after.store key index (.tree expr after.index))
      | .failed failure after => .failed failure (after.store key index (.failure failure))
      | .exhausted => .exhausted
  else part state

end Setting

/-- Runs a program; `call` runs the rules it calls. -/
def Program.run (setting : Setting) (call : (rule : Rule) → State → Outcome rule.Node) :
    {α : Type} → Program α → State → Outcome α
  | _, .yield value, state => .done value state
  | _, .andThen first next, state =>
      match first.run setting call state with
      | .done value after => (next value).run setting call after
      | .failed failure after => .failed failure after
      | .exhausted => .exhausted
  | _, .fail objection, state => setting.object objection state
  | _, .take kind, state => setting.take kind state
  | _, .peek, state => .done (setting.peek state) state
  | _, .forbid violation token, state => setting.forbid violation token state
  | _, .attempt part, state => Outcome.attempt (part.run setting call) state
  | _, .extent part, state =>
      match part.run setting call state with
      | .done value after => .done (value, setting.extent state.index after.index) after
      | .failed failure after => .failed failure after
      | .exhausted => .exhausted
  | _, .iterate value step, state =>
      Outcome.iterate (fun value => (step value).run setting call) (setting.buffer.size + 1) value
        state
  | _, .remember key rule, state => setting.remember key (call (.expr rule)) state
  | _, .call rule, state => call rule state

/-- Runs a rule with calls at most `depth` deep. -/
def Rule.run (setting : Setting) : Nat → (rule : Rule) → State → Outcome rule.Node
  | 0, _, _ => .exhausted
  | depth + 1, rule, state => rule.body.run setting (Rule.run setting depth) state

/-- Between one consumed token and the next, calls nest less than 32 deep. -/
def Setting.depthLimit (setting : Setting) : Nat :=
  32 * (setting.buffer.size + 1)

/-- Runs a program at the top of a reading. -/
def Program.read {α : Type} (program : Program α) (setting : Setting) (state : State) : Outcome α :=
  program.run setting (Rule.run setting setting.depthLimit) state

end AdaExpressions
