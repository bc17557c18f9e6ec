import AdaExpressions.CommandLine.Arguments
import AdaExpressions.CommandLine.Directory
import AdaExpressions.Diagnostic.Report
import AdaExpressions.Expr.Printer
import AdaExpressions.Expr.Shape
import AdaExpressions.Parser.Basic

/-!
# Responses

What the program answers to its arguments: an exit code and the texts for its two outputs. An
accepted expression is shown by its shape, or as source if asked; an error by its report, if there is
one.
-/

namespace AdaExpressions.CommandLine

structure Response where
  code : UInt32
  output : String
  errors : String
  deriving DecidableEq, Repr

namespace Response

def success (output : String) : Response :=
  ⟨0, output ++ "\n", ""⟩

def failure (errors : String) : Response :=
  ⟨1, "", errors⟩

/-- Where there is no report the program ends at once. What it is told about that comes from outside
of it and is left out. -/
def aborted : Response :=
  ⟨101, "", ""⟩

def version : Response :=
  success "adaexpr 0.1.0"

def usage : Response :=
  ⟨2, "", "usage: adaexpr [--strict] [--unparse] (FILE | -e TEXT | --expr TEXT)\n"⟩

end Response

/-- What diagnostics call a file: the last name of its path, if the path ends in one. -/
def fileLabel (path : String) : String :=
  match (movingNames path).getLast? with
  | none => path
  | some name => if name = ".." then path else name

namespace Invocation

def options (invocation : Invocation) : Options :=
  if invocation.strict then .strict else .lenient

/-- Answers for a source that diagnostics call `file`. -/
def evaluate (invocation : Invocation) (source file : String) : Response :=
  match parseSource source file invocation.options with
  | .accepted expr =>
      .success (if invocation.unparse then expr.sourceText else expr.shapeText)
  | .rejected error => ((Report.render? error source file).map Response.failure).getD .aborted
  | .undecided => .failure "Error: expression nested too deeply\n"

/-- Answers for a file that was read, or could not be. -/
def evaluateFile (invocation : Invocation) (path : String) : Except ReadFailure String → Response
  | .ok source => invocation.evaluate source (fileLabel path)
  | .error failure => .failure ("Failed to read " ++ path ++ ": " ++ failure.reason ++ "\n")

end Invocation

/-- Answers arguments, reading files of a directory. -/
def respond (directory : Directory) (arguments : List String) : Response :=
  match Request.ofArguments arguments with
  | none => .usage
  | some .version => .version
  | some (.invoke invocation) => match invocation.input with
    | .text source => invocation.evaluate source "shell"
    | .file path => invocation.evaluateFile path (directory.read path)

end AdaExpressions.CommandLine
