import AdaExpressions.Diagnostic.Error
import AdaExpressions.Operator
import AdaExpressions.Token.Basic

/-!
# Failures of rules

A rule fails at a token with an objection. Most objections are recoverable: an ordered choice goes
on to its next alternative. A violation is not. The grammar by itself allows what a violation names,
and only the options of a reading forbid it.
-/

namespace AdaExpressions

/-- A use of operators that options may forbid. -/
inductive Violation
  /-- A comparison or membership test whose left side already belongs to a comparison. -/
  | chained (operator : Op)
  /-- Two different logical operators in one chain without parentheses. -/
  | mixed (first second : Op)
  deriving DecidableEq, Repr

structure Options where
  rejectChained : Bool
  rejectMixed : Bool
  deriving DecidableEq, Inhabited, Repr

namespace Options

/-- Allows all that the grammar allows. -/
def lenient : Options :=
  ⟨false, false⟩

def strict : Options :=
  ⟨true, true⟩

def rejects (options : Options) : Violation → Bool
  | .chained _ => options.rejectChained
  | .mixed _ _ => options.rejectMixed

end Options

inductive Objection
  | expected (kind : Kind)
  | noAlternative (rule : String) (alternatives : List String)
  | violation (violation : Violation)
  deriving DecidableEq, Repr

/-- An objection and the token it is raised at. -/
structure Failure where
  token : Token
  objection : Objection
  deriving DecidableEq, Repr

namespace Objection

def isFatal : Objection → Bool
  | .violation _ => true
  | _ => false

/-- The cause of the error, where the text at fault is `found`. -/
def cause (found : String) : Objection → Cause
  | .expected kind => .unexpectedBecause found ("expected " ++ kind.name)
  | .noAlternative rule alternatives => .noAlternative rule alternatives found
  | .violation (.chained operator) => .chained operator.spelling
  | .violation (.mixed first second) => .mixed first.spelling second.spelling

theorem isFatal_cause (objection : Objection) (found : String) :
    (objection.cause found).isFatal = objection.isFatal := by
  match objection with
  | .expected _ => rfl
  | .noAlternative _ _ => rfl
  | .violation (.chained _) => rfl
  | .violation (.mixed _ _) => rfl

end Objection

namespace Failure

def isFatal (failure : Failure) : Bool :=
  failure.objection.isFatal

def position (failure : Failure) : Position :=
  failure.token.span.start

def error (failure : Failure) : Error :=
  ⟨failure.objection.cause failure.token.text, failure.position⟩

end Failure

end AdaExpressions
