import AdaExpressions.CommandLine.Response

/-!
# The program

Reads the file that the arguments name, if they name one, and writes the response.
-/

namespace AdaExpressions

open CommandLine

/-- A path that leads through a file fails with a name when it is opened; a directory opens, and
fails without one when it is read. -/
def CommandLine.ReadFailure.ofError : IO.Error → ReadFailure
  | .noFileOrDirectory _ _ _ => .missing
  | .inappropriateType (some _) _ _ => .notDirectory
  | .inappropriateType none _ _ => .isDirectory
  | .invalidArgument (some _) _ "name too long" => .nameTooLong
  | .permissionDenied _ _ _ => .denied
  | error => .system (toString error)

def load (path : String) : IO (Except ReadFailure String) := do
  try
    let content ← IO.FS.readBinFile path
    match String.fromUTF8? content with
    | some text => return .ok text
    | none => return .error .notText
  catch error => return .error (CommandLine.ReadFailure.ofError error)

def answer (arguments : List String) : IO Response := do
  match Request.ofArguments arguments with
  | some (.invoke ⟨.file path, strict, unparse⟩) =>
      return Invocation.evaluateFile ⟨.file path, strict, unparse⟩ path (← load path)
  | _ => return respond (.ofFiles []) arguments

end AdaExpressions

def main (arguments : List String) : IO UInt32 := do
  let response ← AdaExpressions.answer arguments
  IO.print response.output
  IO.eprint response.errors
  return response.code
