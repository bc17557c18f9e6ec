import AdaExpressions.Source.Line
import AdaExpressions.Token.Basic

/-!
# Scanning by hand

A scanner stands at a byte offset of a source and collects tokens given to it. It may be moved
anywhere; the rest of the source is only defined at the start of a character and at the end.
-/

namespace AdaExpressions

structure Scanner where
  source : List Char
  file : String
  offset : Nat
  /-- The tokens collected, the latest first. -/
  tokens : List Token

namespace Scanner

def ofSource (source file : String) : Scanner :=
  ⟨source.toList, file, 0, []⟩

def advance (scanner : Scanner) (bytes : Nat) : Scanner :=
  { scanner with offset := scanner.offset + bytes }

def push (scanner : Scanner) (token : Token) : Scanner :=
  { scanner with tokens := token :: scanner.tokens }

/-- What is left of a text after that many bytes, unless they end inside a character. -/
def dropBytes? : Nat → List Char → Option (List Char)
  | 0, text => some text
  | _ + 1, [] => none
  | bytes + 1, c :: rest =>
      if c.utf8Size ≤ bytes + 1 then dropBytes? (bytes + 1 - c.utf8Size) rest else none

def remainder? (scanner : Scanner) : Option (List Char) :=
  dropBytes? scanner.offset scanner.source

/-- The next character; the null character at the end. -/
def next? (scanner : Scanner) : Option Char :=
  scanner.remainder?.map fun rest => rest.headD '\x00'

def atEnd (scanner : Scanner) : Bool :=
  byteLength scanner.source ≤ scanner.offset

/-- The span of the next bytes. -/
def span (scanner : Scanner) (bytes : Nat) : Span :=
  .ofBytes scanner.offset bytes scanner.file

def lastKind? (scanner : Scanner) : Option Kind :=
  scanner.tokens.head?.map Token.kind

theorem dropBytes?_append (passed rest : List Char) :
    dropBytes? (byteLength passed) (passed ++ rest) = some rest := by
  induction passed with
  | nil => simp [dropBytes?]
  | cons c more ih =>
      obtain ⟨size, found⟩ : ∃ size, c.utf8Size = size + 1 :=
        ⟨c.utf8Size - 1, by have := c.utf8Size_pos; omega⟩
      have sum : byteLength (c :: more) = size + byteLength more + 1 := by
        simp [found]; omega
      rw [sum, List.cons_append, dropBytes?, if_pos (by omega)]
      rw [show size + byteLength more + 1 - c.utf8Size = byteLength more by omega]
      exact ih

end Scanner

end AdaExpressions
