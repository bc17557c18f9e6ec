import AdaExpressions.Diagnostic.Error
import AdaExpressions.Source.Line
import AdaExpressions.Text.Blank

/-!
# Reports

A report shows an error against the source it was raised on: its name and advice, the file, and,
when the source has a line at the error's position, that line under its number with a caret below
it. The line is shown without the spaces and tabs it starts with and the blanks it ends with. The
caret is put in its place by filling a field with hyphens, and a field has at most 65535 columns;
where the caret would be further to the right there is no report, and the program ends.

```text
Error: TrailingTokens (Expression ends before `B`, is an operator or parenthesis missing?)
-> expr.adb
  |
1 | A B
  | --^
```
-/

namespace AdaExpressions.Report

/-- Spaces and tabs. -/
def isIndent (c : Char) : Bool :=
  c == ' ' || c == '\t'

def dropTrailingBlanks (text : List Char) : List Char :=
  (text.reverse.dropWhile Text.isBlank).reverse

/-- The bar of the gutter, as wide as the line number and a space before it. -/
def gutter (number : Nat) : String :=
  String.ofList (List.replicate ((Nat.repr number).length + 1) ' ' ++ ['|'])

def headline (error : Error) : String :=
  "Error: " ++ error.cause.name ++ match error.cause.tip? with
    | none => ""
    | some tip => " (" ++ tip ++ ")"

/-- The line without its indentation and the blanks at its end. -/
def shownText (line : SourceLine) : List Char :=
  dropTrailingBlanks (line.text.dropWhile isIndent)

/-- A caret under the column, a hyphen for each byte between it and the indentation. -/
def caret (line : SourceLine) : List Char :=
  List.replicate (line.column - (line.text.takeWhile isIndent).length) '-' ++ ['^']

/-- The most columns that a field can be filled to. -/
def fieldLimit : Nat := 65535

def excerpt? (line : SourceLine) : Option (List String) :=
  if (caret line).length ≤ fieldLimit then
    some [gutter line.number,
      Nat.repr line.number ++ " | " ++ String.ofList (shownText line),
      gutter line.number ++ " " ++ String.ofList (caret line)]
  else none

def lines? (error : Error) (source file : String) : Option (List String) :=
  let heading := [headline error, "-> " ++ file]
  match lineAt source error.position.offset with
  | none => some heading
  | some line => (excerpt? line).map (heading ++ ·)

/-- Every line of the report ends in a newline. -/
def render? (error : Error) (source file : String) : Option String :=
  (lines? error source file).map fun lines => String.join (lines.map (· ++ "\n"))

end AdaExpressions.Report
