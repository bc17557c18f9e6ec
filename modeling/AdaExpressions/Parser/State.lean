import AdaExpressions.Parser.Buffer
import AdaExpressions.Parser.Memo

/-!
# The state of a reading

What changes while rules run: the index of the current token, the results remembered so far, and the
recoverable failures noted so far. Of the failures only the furthest is ever shown; of several that
stand at one offset it is the one noted last.
-/

namespace AdaExpressions

structure State where
  index : Nat
  memo : Memo
  /-- Noted failures, the latest first. -/
  failures : List Failure

namespace State

/-- Before anything of a buffer is read. -/
def start (buffer : Buffer) : State :=
  ⟨0, .empty buffer.size, []⟩

def moveTo (state : State) (index : Nat) : State :=
  { state with index }

def note (state : State) (failure : Failure) : State :=
  { state with failures := failure :: state.failures }

def store (state : State) (key : MemoKey) (index : Nat) (result : Remembered) : State :=
  { state with memo := state.memo.store key index result }

end State

/-- The further of a failure and one noted before it; at one offset the later one. -/
def Failure.further (failure : Failure) : Option Failure → Failure
  | none => failure
  | some earlier =>
      if earlier.position.offset ≤ failure.position.offset then failure else earlier

/-- The furthest of a list of failures of which the latest comes first. -/
def furthestFailure? (failures : List Failure) : Option Failure :=
  failures.foldr (fun failure earlier => some (failure.further earlier)) none

theorem mem_of_furthestFailure? {failures : List Failure} {furthest : Failure}
    (found : furthestFailure? failures = some furthest) : furthest ∈ failures := by
  induction failures generalizing furthest with
  | nil => cases found
  | cons latest earlier ih =>
      have whole : some (latest.further (furthestFailure? earlier)) = some furthest := found
      cases before : furthestFailure? earlier with
      | none =>
          rw [before] at whole
          cases whole
          exact List.mem_cons_self
      | some kept =>
          simp only [before, Failure.further] at whole
          split at whole <;> cases whole
          · exact List.mem_cons_self
          · exact List.mem_cons_of_mem _ (ih before)

theorem furthestFailure?_eq_none {failures : List Failure} :
    furthestFailure? failures = none ↔ failures = [] := by
  cases failures <;> simp [furthestFailure?]

theorem offset_le_furthestFailure {failures : List Failure} {furthest : Failure}
    (found : furthestFailure? failures = some furthest) :
    ∀ failure ∈ failures, failure.position.offset ≤ furthest.position.offset := by
  induction failures generalizing furthest with
  | nil => simp
  | cons latest earlier ih =>
      intro failure member
      have whole : some (latest.further (furthestFailure? earlier)) = some furthest := found
      cases before : furthestFailure? earlier with
      | none =>
          have alone : earlier = [] := by
            cases earlier with
            | nil => rfl
            | cons _ _ => simp [furthestFailure?] at before
          subst alone
          simp only [before, Failure.further] at whole
          cases whole
          simp only [List.mem_singleton] at member
          subst member
          exact UInt32.le_refl _
      | some kept =>
          simp only [before, Failure.further] at whole
          rcases List.mem_cons.mp member with rfl | older
          · split at whole <;> cases whole
            · exact UInt32.le_refl _
            next nearer => exact UInt32.le_of_lt (UInt32.not_le.mp nearer)
          · have bound := ih before failure older
            split at whole <;> cases whole
            next further => exact UInt32.le_trans bound further
            next => exact bound

end AdaExpressions
