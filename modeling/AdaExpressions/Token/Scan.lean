import AdaExpressions.Diagnostic.Error
import AdaExpressions.Token.Basic
import AdaExpressions.Token.Lexeme

/-!
# The tokens of a source

The lexemes of a source that carry a token, each with its byte span, and an end-of-input token after
them. A source that cannot be divided to its end has no tokens but an error at the character where
no lexeme starts.
-/

namespace AdaExpressions

/-- The tokens of lexemes of which the first starts at byte `offset`. -/
def placeLexemes (file : String) (offset : Nat) : List Lexeme → List Token
  | [] => [.eof (.ofBytes offset file)]
  | lexeme :: more =>
      let bytes := byteLength lexeme.text
      let rest := placeLexemes file (offset + bytes) more
      match lexeme.kind with
      | none => rest
      | some kind => ⟨kind, String.ofList lexeme.text, .ofBytes offset bytes file⟩ :: rest

def tokenize (source file : String) : Except Error (List Token) :=
  match Lexeme.divide none source.toList with
  | (lexemes, []) => .ok (placeLexemes file 0 lexemes)
  | (lexemes, stuck :: _) =>
      .error
        ⟨.unrecognised stuck.toString, .ofBytes (byteLength (lexemes.flatMap Lexeme.text)) file⟩

end AdaExpressions
