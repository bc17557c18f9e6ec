/-!
# Kinds of token

The end of the input, the four classes of token whose text varies, the delimiters and the reserved
words. A kind of the last two groups has one spelling; reserved words are recognised in any case of
their letters.
-/

namespace AdaExpressions

inductive Kind
  | eof
  | number
  | string
  | char
  | identifier
  | openParen
  | closeParen
  | tick
  | dot
  | dotDot
  | comma
  | semicolon
  | colon
  | pipe
  | arrow
  | assignment
  | diamond
  | equals
  | notEquals
  | less
  | lessEquals
  | greater
  | greaterEquals
  | plus
  | dash
  | star
  | slash
  | pow
  | ampersand
  | kwAbs
  | kwAccess
  | kwAll
  | kwAnd
  | kwCase
  | kwDelta
  | kwDigits
  | kwElse
  | kwElsif
  | kwFor
  | kwIf
  | kwIn
  | kwIs
  | kwMod
  | kwNew
  | kwNot
  | kwNull
  | kwOf
  | kwOr
  | kwOthers
  | kwRaise
  | kwRange
  | kwRecord
  | kwRem
  | kwReverse
  | kwSome
  | kwThen
  | kwWhen
  | kwWith
  | kwXor
  deriving DecidableEq, Inhabited, Repr

namespace Kind

/-- The delimiters in the order in which they are tried: a longer one before its beginning. -/
def delimiters : List Kind :=
  [.tick, .openParen, .closeParen, .arrow, .equals, .notEquals, .slash, .diamond, .lessEquals,
   .less, .greaterEquals, .greater, .dotDot, .dot, .assignment, .colon, .semicolon, .comma,
   .pipe, .pow, .star, .plus, .dash, .ampersand]

def reservedWords : List Kind :=
  [.kwAbs, .kwAccess, .kwAll, .kwAnd, .kwCase, .kwDelta, .kwDigits, .kwElse, .kwElsif, .kwFor,
   .kwIf, .kwIn, .kwIs, .kwMod, .kwNew, .kwNot, .kwNull, .kwOf, .kwOr, .kwOthers, .kwRaise,
   .kwRange, .kwRecord, .kwRem, .kwReverse, .kwSome, .kwThen, .kwWhen, .kwWith, .kwXor]

/-- The spelling of a delimiter or reserved word; empty for the other kinds. -/
def spelling : Kind → String
  | .openParen => "("
  | .closeParen => ")"
  | .tick => "'"
  | .dot => "."
  | .dotDot => ".."
  | .comma => ","
  | .semicolon => ";"
  | .colon => ":"
  | .pipe => "|"
  | .arrow => "=>"
  | .assignment => ":="
  | .diamond => "<>"
  | .equals => "="
  | .notEquals => "/="
  | .less => "<"
  | .lessEquals => "<="
  | .greater => ">"
  | .greaterEquals => ">="
  | .plus => "+"
  | .dash => "-"
  | .star => "*"
  | .slash => "/"
  | .pow => "**"
  | .ampersand => "&"
  | .kwAbs => "abs"
  | .kwAccess => "access"
  | .kwAll => "all"
  | .kwAnd => "and"
  | .kwCase => "case"
  | .kwDelta => "delta"
  | .kwDigits => "digits"
  | .kwElse => "else"
  | .kwElsif => "elsif"
  | .kwFor => "for"
  | .kwIf => "if"
  | .kwIn => "in"
  | .kwIs => "is"
  | .kwMod => "mod"
  | .kwNew => "new"
  | .kwNot => "not"
  | .kwNull => "null"
  | .kwOf => "of"
  | .kwOr => "or"
  | .kwOthers => "others"
  | .kwRaise => "raise"
  | .kwRange => "range"
  | .kwRecord => "record"
  | .kwRem => "rem"
  | .kwReverse => "reverse"
  | .kwSome => "some"
  | .kwThen => "then"
  | .kwWhen => "when"
  | .kwWith => "with"
  | .kwXor => "xor"
  | _ => ""

/-- How diagnostics call the kind. -/
def name : Kind → String
  | .eof => "EOF"
  | .number => "Number"
  | .string => "String"
  | .char => "Char"
  | .identifier => "Identifier"
  | .openParen => "OpenParen"
  | .closeParen => "CloseParen"
  | .tick => "Tick"
  | .dot => "Dot"
  | .dotDot => "DotDot"
  | .comma => "Comma"
  | .semicolon => "Semicolon"
  | .colon => "Colon"
  | .pipe => "Pipe"
  | .arrow => "Arrow"
  | .assignment => "Assignment"
  | .diamond => "Diamond"
  | .equals => "Equals"
  | .notEquals => "NotEquals"
  | .less => "Less"
  | .lessEquals => "LessEquals"
  | .greater => "Greater"
  | .greaterEquals => "GreaterEquals"
  | .plus => "Plus"
  | .dash => "Dash"
  | .star => "Star"
  | .slash => "Slash"
  | .pow => "Pow"
  | .ampersand => "Ampersand"
  | .kwAbs => "Abs"
  | .kwAccess => "Access"
  | .kwAll => "All"
  | .kwAnd => "And"
  | .kwCase => "Case"
  | .kwDelta => "Delta"
  | .kwDigits => "Digits"
  | .kwElse => "Else"
  | .kwElsif => "Elsif"
  | .kwFor => "For"
  | .kwIf => "If"
  | .kwIn => "In"
  | .kwIs => "Is"
  | .kwMod => "Mod"
  | .kwNew => "New"
  | .kwNot => "Not"
  | .kwNull => "Null"
  | .kwOf => "Of"
  | .kwOr => "Or"
  | .kwOthers => "Others"
  | .kwRaise => "Raise"
  | .kwRange => "Range"
  | .kwRecord => "Record"
  | .kwRem => "Rem"
  | .kwReverse => "Reverse"
  | .kwSome => "Some"
  | .kwThen => "Then"
  | .kwWhen => "When"
  | .kwWith => "With"
  | .kwXor => "Xor"

/-- Every kind, once. -/
def every : List Kind :=
  [.eof, .number, .string, .char, .identifier] ++ delimiters ++ reservedWords

def ofName? (text : String) : Option Kind :=
  every.find? (·.name == text)

def isReserved (kind : Kind) : Bool :=
  reservedWords.contains kind

/-- After a token of such a kind an apostrophe is a tick, never the start of a character literal.
The reserved attribute designators are not among them: `range 'a' .. 'z'` keeps its characters. -/
def precedesTick (kind : Kind) : Bool :=
  kind == .identifier || kind == .closeParen || kind == .kwAll

/-- The kind of a word: the reserved word that it spells in some case, else an identifier. -/
def ofWord (word : List Char) : Kind :=
  (reservedWords.find? fun kind => kind.spelling.toList == word.map Char.toLower).getD .identifier

theorem mem_every (kind : Kind) : kind ∈ every := by
  cases kind <;> decide

theorem ofName?_name (kind : Kind) : ofName? kind.name = some kind := by
  cases kind <;> decide +kernel

end Kind

end AdaExpressions
