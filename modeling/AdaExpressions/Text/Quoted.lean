import AdaExpressions.Text.Combining
import AdaExpressions.Text.Printable

/-!
# Quoted text

Diagnostics show a piece of source between quotation marks. The quotation mark, the backslash and
the usual controls have short escapes; every other character that would not show, or that would
attach to its neighbour, is written by its code point.
-/

namespace AdaExpressions.Text

/-- A character by its code point in hexadecimal. -/
def codePointEscape (c : Char) : List Char :=
  "\\u\x7b".toList ++ Nat.toDigits 16 c.toNat ++ ['\x7d']

def quotedChar (c : Char) : List Char :=
  if c = '\x00' then ['\\', '0']
  else if c = '\t' then ['\\', 't']
  else if c = '\r' then ['\\', 'r']
  else if c = '\n' then ['\\', 'n']
  else if c = '\\' then ['\\', '\\']
  else if c = '\x22' then ['\\', '\x22']
  else if isCombining c || !isPrintable c then codePointEscape c
  else [c]

def quoted (text : String) : String :=
  String.ofList ('\x22' :: text.toList.flatMap quotedChar ++ ['\x22'])

/-- Quoted items between brackets. -/
def quotedList (items : List String) : String :=
  "[" ++ ", ".intercalate (items.map quoted) ++ "]"

end AdaExpressions.Text
