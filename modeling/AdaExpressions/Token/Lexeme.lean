import AdaExpressions.Source.Line
import AdaExpressions.Text.Blank
import AdaExpressions.Token.Kind

/-!
# Lexemes

A source is divided into lexemes from left to right: runs of blanks and comments, which carry no
token, and the texts of tokens. A pattern tells how many characters a lexeme takes after its first
one; patterns are tried in a fixed order and the first that matches wins. An apostrophe that could
open a character literal is a lone tick after a name, a closing parenthesis or `all`.

Results: `divide_append` (the lexemes and the rest at which none starts make up the source) and
`text_ne_nil_of_mem_divide` (no lexeme is empty).
-/

namespace AdaExpressions

/-- A piece of source. Layout, that is blanks and comments, has no kind. -/
structure Lexeme where
  kind : Option Kind
  text : List Char
  deriving DecidableEq, Repr

namespace Lexeme

def isWordChar (c : Char) : Bool :=
  c.isAlphanum || c == '_'

def isDigitChar (c : Char) : Bool :=
  c.isDigit || c == '_'

def isHexChar (c : Char) : Bool :=
  c.isDigit || ('a' ≤ c && c ≤ 'f') || ('A' ≤ c && c ≤ 'F') || c == '_'

/-! ### Patterns

Each gives the number of characters that follow the first one in the lexeme. -/

/-- How many characters from the start satisfy `p`. -/
def runLength (p : Char → Bool) (text : List Char) : Nat :=
  (text.takeWhile p).length

def blanks (first : Char) (rest : List Char) : Option Nat :=
  if Text.isBlank first then some (runLength Text.isBlank rest) else none

/-- Two hyphens and what follows them on the line. -/
def comment (first : Char) (rest : List Char) : Option Nat :=
  match rest with
  | second :: rest =>
      if first = '-' ∧ second = '-' then some (1 + runLength (· != '\n') rest) else none
  | [] => none

def word (first : Char) (rest : List Char) : Option Nat :=
  if first.isAlpha then some (runLength isWordChar rest) else none

/-- Digits between number signs, with at most one point among them. -/
def basedPart : List Char → Option Nat
  | '#' :: rest =>
      let whole := runLength isHexChar rest
      if whole = 0 then none
      else match rest.drop whole with
        | '#' :: _ => some (whole + 2)
        | '.' :: rest =>
            let fraction := runLength isHexChar rest
            if fraction = 0 then none
            else match rest.drop fraction with
              | '#' :: _ => some (whole + fraction + 3)
              | _ => none
        | _ => none
  | _ => none

/-- A point and digits, the first of which is no underscore. -/
def fractionPart : List Char → Option Nat
  | '.' :: first :: rest => if first.isDigit then some (2 + runLength isDigitChar rest) else none
  | _ => none

/-- The letter E, an optional sign and digits. -/
def exponentPart : List Char → Option Nat
  | mark :: rest =>
      if mark = 'e' ∨ mark = 'E' then
        let sign := match rest with
          | '+' :: _ => 1
          | '-' :: _ => 1
          | _ => 0
        let digits := runLength Char.isDigit (rest.drop sign)
        if digits = 0 then none else some (1 + sign + digits)
      else none
  | [] => none

/-- Digits, then a based or a fractional part, then an exponent, each of the two only where it is
complete. -/
def number (first : Char) (rest : List Char) : Option Nat :=
  if first.isDigit then
    let whole := runLength isDigitChar rest
    let afterWhole := rest.drop whole
    let part := ((basedPart afterWhole).or (fractionPart afterWhole)).getD 0
    let exponent := (exponentPart (afterWhole.drop part)).getD 0
    some (whole + part + exponent)
  else none

/-- How many characters lead through the quotation mark that closes a string literal. Two quotation
marks in a row stand for one inside the literal, unless no closing one comes after them on the
line. -/
def closingQuote : List Char → Option Nat
  | [] => none
  | '\n' :: _ => none
  | '\x22' :: '\x22' :: rest =>
      match closingQuote rest with
      | some length => some (length + 2)
      | none => some 1
  | '\x22' :: _ => some 1
  | _ :: rest => (closingQuote rest).map (· + 1)

def string (first : Char) (rest : List Char) : Option Nat :=
  if first = '\x22' then closingQuote rest else none

/-- Any character but a newline between apostrophes. -/
def character (first : Char) (rest : List Char) : Option Nat :=
  match rest with
  | middle :: last :: _ =>
      if first = '\x27' ∧ middle ≠ '\n' ∧ last = '\x27' then some 2 else none
  | _ => none

def delimiter (kind : Kind) (first : Char) (rest : List Char) : Option Nat :=
  match kind.spelling.toList with
  | c :: more => if c = first ∧ more.isPrefixOf rest then some more.length else none
  | [] => none

/-! ### The first lexeme of a text -/

/-- A way to start a lexeme. -/
inductive Pattern
  | blanks
  | comment
  | word
  | number
  | string
  | character
  | delimiter (kind : Kind)
  deriving DecidableEq, Repr

namespace Pattern

def match? : Pattern → Char → List Char → Option Nat
  | .blanks => Lexeme.blanks
  | .comment => Lexeme.comment
  | .word => Lexeme.word
  | .number => Lexeme.number
  | .string => Lexeme.string
  | .character => Lexeme.character
  | .delimiter kind => Lexeme.delimiter kind

/-- The kind of the token with this text. -/
def kind (pattern : Pattern) (text : List Char) : Option Kind :=
  match pattern with
  | .blanks | .comment => none
  | .word => some (.ofWord text)
  | .number => some .number
  | .string => some .string
  | .character => some .char
  | .delimiter kind => some kind

/-- All patterns, in the order in which they are tried. -/
def ordered : List Pattern :=
  [.blanks, .comment, .word, .number, .string, .character] ++ Kind.delimiters.map .delimiter

end Pattern

/-- The first pattern that matches, with the length of its match after the first character. -/
def firstMatch (first : Char) (rest : List Char) : Option (Pattern × Nat) :=
  Pattern.ordered.findSome? fun pattern => (pattern.match? first rest).map (pattern, ·)

/-- Whether an apostrophe after a token of kind `last` is a tick whatever follows it. -/
def ticksAfter (last : Option Kind) : Bool :=
  last.any Kind.precedesTick

/-- The lexeme at the start of `first :: rest`, after a token of kind `last`. -/
def next? (last : Option Kind) (first : Char) (rest : List Char) : Option Lexeme :=
  match firstMatch first rest with
  | none => none
  | some (.character, length) =>
      if ticksAfter last then some ⟨some .tick, [first]⟩
      else some ⟨some .char, first :: rest.take length⟩
  | some (pattern, length) =>
      let text := first :: rest.take length
      some ⟨pattern.kind text, text⟩

/-- The lexemes of a text, and the rest of it where no lexeme starts. -/
def divide (last : Option Kind) : List Char → List Lexeme × List Char
  | [] => ([], [])
  | first :: rest =>
      match next? last first rest with
      | none => ([], first :: rest)
      | some lexeme =>
          let (more, stuck) := divide (lexeme.kind.or last) (rest.drop (lexeme.text.length - 1))
          (lexeme :: more, stuck)
termination_by text => text.length
decreasing_by simp only [List.length_drop, List.length_cons]; omega

theorem next?_eq_some {last : Option Kind} {first : Char} {rest : List Char} {lexeme : Lexeme}
    (found : next? last first rest = some lexeme) :
    ∃ length, lexeme.text = first :: rest.take length := by
  unfold next? at found
  split at found
  · simp at found
  · split at found <;> cases found
    · exact ⟨0, by simp⟩
    · exact ⟨_, rfl⟩
  · cases found
    exact ⟨_, rfl⟩

theorem divide_append (last : Option Kind) (text : List Char) :
    (divide last text).1.flatMap Lexeme.text ++ (divide last text).2 = text := by
  fun_induction divide last text with
  | case1 => rfl
  | case2 => rfl
  | case3 last first rest lexeme found more stuck divided ih =>
      obtain ⟨length, taken⟩ := next?_eq_some found
      simp only [divided] at ih
      simp only [List.flatMap_cons, List.append_assoc, ih, taken]
      by_cases fits : length ≤ rest.length
      · simp [Nat.min_eq_left fits]
      · have wide : rest.length ≤ length := by omega
        simp [List.take_of_length_le wide]

theorem text_ne_nil_of_mem_divide {last : Option Kind} {text : List Char} {lexeme : Lexeme}
    (member : lexeme ∈ (divide last text).1) : lexeme.text ≠ [] := by
  fun_induction divide last text with
  | case1 => simp at member
  | case2 => simp at member
  | case3 last first rest head found more stuck divided ih =>
      simp only [List.mem_cons] at member
      rcases member with rfl | member
      · obtain ⟨length, taken⟩ := next?_eq_some found
        simp [taken]
      · exact ih (by simpa [divided] using member)

end Lexeme

end AdaExpressions
