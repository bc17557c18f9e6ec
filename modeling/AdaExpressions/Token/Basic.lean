import AdaExpressions.Source.Position
import AdaExpressions.Text.Lowercase
import AdaExpressions.Token.Kind

/-!
# Tokens

A token has a kind, the text it has in the source (a literal keeps its quotation marks), and its
span.
-/

namespace AdaExpressions

structure Token where
  kind : Kind
  text : String
  span : Span
  deriving DecidableEq, Inhabited, Repr

namespace Token

/-- The token that closes an input which ends at `position`. -/
def eof (position : Position) : Token :=
  ⟨.eof, "EOF", .empty position⟩

/-- What the token is looked up by: an identifier in lower case, any other token as it is spelt. -/
def symbol (token : Token) : String :=
  if token.kind = .identifier then Text.lowercase token.text else token.text

end Token

end AdaExpressions
