import AdaExpressions.Text.Ranges

/-!
# Blank characters

`isBlank` is the Unicode property White_Space: the characters that separate lexemes, and those
dropped from the end of a line shown in a diagnostic.
-/

namespace AdaExpressions.Text

def blankRanges : List CodeRange :=
  [(0x9, 0xd), (0x20, 0x20), (0x85, 0x85), (0xa0, 0xa0), (0x1680, 0x1680), (0x2000, 0x200a),
   (0x2028, 0x2029), (0x202f, 0x202f), (0x205f, 0x205f), (0x3000, 0x3000)]

def isBlank (c : Char) : Bool :=
  inRanges blankRanges c

end AdaExpressions.Text
