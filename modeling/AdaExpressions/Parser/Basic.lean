import AdaExpressions.Parser.Run
import AdaExpressions.Token.Scan

/-!
# Parsers

A parser holds a token buffer, the options and the state of its reading. Every rule can be run from
wherever the parser stands; on failure the parser stays where the rule left it. `parse` reads a whole
token list as one expression.
-/

namespace AdaExpressions

/-- What became of a reading. -/
inductive Verdict (α : Type)
  | accepted (value : α)
  | rejected (error : Error)
  /-- A limit of the reading was exhausted. -/
  | undecided

/-- A recoverable error gives way to a failure that was noted further on. -/
def furthestError (error : Error) (failures : List Failure) : Error :=
  match furthestFailure? failures with
  | none => error
  | some furthest =>
      if !error.isFatal && error.position.offset < furthest.position.offset then furthest.error
      else error

namespace Setting

variable (setting : Setting)

/-- What becomes of a program, and the state that it leaves. -/
def read {α : Type} (program : Program α) (state : State) : Verdict α × State :=
  match program.read setting state with
  | .done value after => (.accepted value, after)
  | .failed failure after => (.rejected failure.error, after)
  | .exhausted => (.undecided, state)

/-- Reads an expression up to the end of the input. -/
def wholeExpression (state : State) : Verdict Expr :=
  match setting.read (.expr .expression) state with
  | (.accepted expr, after) =>
      let current := setting.current after
      if current.kind = .eof then .accepted expr
      else .rejected (furthestError ⟨.trailing current.text, current.span.start⟩ after.failures)
  | (.rejected error, after) => .rejected (furthestError error after.failures)
  | (.undecided, _) => .undecided

end Setting

structure Parser where
  buffer : Buffer
  options : Options
  state : State

namespace Parser

def ofTokens (tokens : List Token) (file : String) (options : Options) : Parser :=
  let buffer := Buffer.ofTokens tokens file
  ⟨buffer, options, .start buffer⟩

def setting (parser : Parser) : Setting :=
  ⟨parser.buffer, parser.options, true⟩

/-! ### Looking and moving -/

/-- The index of the current token. -/
def mark (parser : Parser) : Nat :=
  parser.state.index

def reset (parser : Parser) (mark : Nat) : Parser :=
  { parser with state := parser.state.moveTo mark }

def current (parser : Parser) : Token :=
  parser.buffer.token parser.mark

/-- The kind of the token `count` places after the current one. -/
def peekKind (parser : Parser) (count : Nat) : Kind :=
  parser.buffer.kind (parser.mark + count)

def hasTokens (parser : Parser) : Bool :=
  parser.current.kind != .eof

/-- The current token, and the parser behind it unless it ends the input. -/
def advance (parser : Parser) : Token × Parser :=
  (parser.current, parser.reset (parser.buffer.next parser.mark))

def position (parser : Parser) : Position :=
  parser.current.span.start

/-- The span of the last consumed token; of the first token if none is consumed. -/
def previousSpan (parser : Parser) : Span :=
  (parser.buffer.token (parser.mark - 1)).span

/-- How many results are remembered. -/
def memoCount (parser : Parser) : Nat :=
  parser.state.memo.count

def furthestFailure? (parser : Parser) : Option Failure :=
  AdaExpressions.furthestFailure? parser.state.failures

/-- The error of a choice none of whose alternatives matches the current token. -/
def noAlternative (parser : Parser) (rule : String) (alternatives : List String) : Error :=
  (⟨parser.current, .noAlternative rule alternatives⟩ : Failure).error

/-! ### Running programs -/

def read {α : Type} (parser : Parser) (program : Program α) : Verdict α × Parser :=
  let (verdict, state) := parser.setting.read program parser.state
  (verdict, { parser with state })

def rule (parser : Parser) (rule : Rule) : Verdict rule.Node × Parser :=
  parser.read (.call rule)

/-- Runs a rule; on a recoverable failure nothing is yielded and the parser stays. -/
def attempt (parser : Parser) (rule : Rule) : Verdict (Option rule.Node) × Parser :=
  parser.read (.attempt (.call rule))

/-- Yields what is remembered under the key here, whatever rule it came from, or runs the rule. -/
def remembered (parser : Parser) (key : MemoKey) (rule : ExprRule) : Verdict Expr × Parser :=
  parser.read (.remember key rule)

def expect (parser : Parser) (kind : Kind) : Verdict Token × Parser :=
  parser.read (.take kind)

/-- As `expect`, with an error of the caller's own. -/
def expectOr (parser : Parser) (kind : Kind) (error : Error) : Verdict Token × Parser :=
  match parser.expect kind with
  | (.rejected _, parser) => (.rejected error, parser)
  | answer => answer

/-- Consumes the next operator if it is one of the table. -/
def matchOperator (parser : Parser) (table : List Op) : Verdict (Option (Op × Span)) × Parser :=
  parser.read do
    let some op ← Program.nextOperator table | return none
    let words ← Program.takeOperator op
    return some (op, words.span)

/-- The kinds are those of the tokens from the current one on. -/
def standsNext (parser : Parser) (kinds : List Kind) : Bool :=
  kinds.zipIdx.all fun entry => parser.peekKind entry.2 == entry.1

/-- Consumes the first entry of a table that stands next, whatever its words are. -/
def matchWords (parser : Parser) (table : List (List Kind × Op)) : Option (Op × Span) × Parser :=
  match table.find? fun entry => parser.standsNext entry.1 with
  | none => (none, parser)
  | some (words, op) =>
      let after := words.foldl (fun parser _ => parser.advance.2) parser
      (some (op, parser.current.span.join after.previousSpan), after)

/-- Reads an expression up to the end of the input. -/
def wholeExpression (parser : Parser) : Verdict Expr :=
  parser.setting.wholeExpression parser.state

end Parser

/-- Reads a whole token list as one expression. -/
def parse (tokens : List Token) (file : String) (options : Options) : Verdict Expr :=
  (Parser.ofTokens tokens file options).wholeExpression

/-- Reads a whole source as one expression. -/
def parseSource (source file : String) (options : Options) : Verdict Expr :=
  match tokenize source file with
  | .ok tokens => parse tokens file options
  | .error error => .rejected error

end AdaExpressions
