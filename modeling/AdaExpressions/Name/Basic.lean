import AdaExpressions.Token.Basic

/-!
# Names

A name is an identifier, or a selection of an identifier out of a name. Identifiers include operator
symbols such as `"+"`, and the literals that an enumeration type declares.
-/

namespace AdaExpressions

inductive IdentForm
  | identifier
  | operatorSymbol
  | enumeration
  deriving DecidableEq, Inhabited, Repr

structure Ident where
  form : IdentForm
  token : Token
  deriving DecidableEq, Inhabited, Repr

inductive Name
  | simple (ident : Ident)
  | selected (base : Name) (selector : Ident) (span : Span)
  deriving DecidableEq, Inhabited, Repr

namespace Name

def span : Name → Span
  | .simple ident => ident.token.span
  | .selected _ _ span => span

/-- Selects `selector` out of `base`. -/
def select (base : Name) (selector : Ident) : Name :=
  .selected base selector (base.span.join selector.token.span)

/-- The token that names the entity, without what it is selected from. -/
def token : Name → Token
  | .simple ident => ident.token
  | .selected _ selector _ => selector.token

/-- The identifiers of the name from left to right. -/
def components : Name → List Ident
  | .simple ident => [ident]
  | .selected base selector _ => base.components ++ [selector]

end Name

end AdaExpressions
