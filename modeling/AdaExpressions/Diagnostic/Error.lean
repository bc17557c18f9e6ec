import AdaExpressions.Source.Position
import AdaExpressions.Text.Quoted

/-!
# Errors

An error is a cause at a position. The cause keeps the texts it was raised with; its wording, the
advice that goes with it and whether it ends an ordered choice are functions of the cause.
-/

namespace AdaExpressions

inductive Cause
  /-- No lexeme starts with this character. -/
  | unrecognised (token : String)
  | unexpected (token : String)
  | unexpectedBecause (token message : String)
  /-- None of the alternatives of a rule starts with this token. -/
  | noAlternative (rule : String) (alternatives : List String) (token : String)
  /-- A token is left over after a whole expression. -/
  | trailing (token : String)
  /-- A relation is compared with something further. -/
  | chained (operator : String)
  /-- Two logical operators meet without parentheses. -/
  | mixed (first second : String)
  deriving DecidableEq, Repr

namespace Cause

def name : Cause → String
  | .unrecognised _ => "UnrecognisedToken"
  | .unexpected _ => "UnexpectedToken"
  | .unexpectedBecause _ _ => "UnexpectedTokenDetailed"
  | .noAlternative _ _ _ => "NoViableAlternative"
  | .trailing _ => "TrailingTokens"
  | .chained _ => "ChainedRelation"
  | .mixed _ _ => "MixedLogicalOperators"

open Text in
def message : Cause → String
  | .unrecognised token => "unrecognised token: " ++ quoted token
  | .unexpected token => "unexpected token: " ++ quoted token
  | .unexpectedBecause token reason =>
      "unexpected token (" ++ quoted reason ++ "): " ++ quoted token
  | .noAlternative rule alternatives token =>
      "no alternative of " ++ rule ++ " matches " ++ quoted token ++
        " (tried " ++ quotedList alternatives ++ ")"
  | .trailing token => "unexpected token after expression: " ++ quoted token
  | .chained operator => "chained relational operator " ++ quoted operator
  | .mixed first second =>
      "logical operators " ++ quoted first ++ " and " ++ quoted second ++
        " mixed without parentheses"

/-- A word of advice, shown beside the name of the error. -/
def tip? : Cause → Option String
  | .unrecognised _ => none
  | .unexpected token => some ("Unexpected token: `" ++ token ++ "`")
  | .unexpectedBecause token reason => some ("Unexpected token: `" ++ token ++ "`, " ++ reason)
  | .noAlternative rule alternatives token =>
      some ("Expected " ++ rule ++ " (" ++ ", ".intercalate alternatives ++ ") but found `" ++
        token ++ "`")
  | .trailing token =>
      some ("Expression ends before `" ++ token ++ "`, is an operator or parenthesis missing?")
  | .chained operator =>
      some ("Relation already compared, parenthesize before `" ++ operator ++ "`")
  | .mixed first second =>
      some ("`" ++ first ++ "` and `" ++ second ++ "` cannot be mixed without parentheses")

/-- A committed error ends an ordered choice: no other alternative is tried after it. -/
def isFatal : Cause → Bool
  | .chained _ | .mixed _ _ => true
  | _ => false

end Cause

structure Error where
  cause : Cause
  position : Position
  deriving DecidableEq, Repr

namespace Error

def isFatal (error : Error) : Bool :=
  error.cause.isFatal

def message (error : Error) : String :=
  error.cause.message ++ " at " ++ error.position.file ++ ":" ++
    (Nat.repr error.position.offset.toNat)

end Error

end AdaExpressions
