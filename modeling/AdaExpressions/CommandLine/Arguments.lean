/-!
# Arguments

The program takes the text of an expression (`-e`, `--expr`) or the name of a file that holds one,
and the flags `--strict` and `--unparse`. Arguments are read from left to right: `--version` answers
at once, whatever comes after it, while a fault before it is a usage error. After `--` every argument
is the name of a file. That exactly one input is given is checked last.
-/

namespace AdaExpressions.CommandLine

inductive Input
  | text (source : String)
  | file (path : String)
  deriving DecidableEq, Repr

/-- An expression to read, and how. -/
structure Invocation where
  input : Input
  strict : Bool
  unparse : Bool
  deriving DecidableEq, Repr

inductive Request
  | version
  | invoke (invocation : Invocation)
  deriving DecidableEq, Repr

/-- What the arguments read so far have given. -/
structure Given where
  text : Option String
  path : Option String
  strict : Bool
  unparse : Bool
  deriving DecidableEq, Repr

namespace Given

def nothing : Given :=
  ⟨none, none, false, false⟩

/-! Nothing may be given twice, and the name of a file may not be empty. -/

def withText (given : Given) (text : String) : Option Given :=
  if given.text.isSome then none else some { given with text := some text }

def withPath (given : Given) (path : String) : Option Given :=
  if given.path.isSome || path.isEmpty then none else some { given with path := some path }

def withStrict (given : Given) : Option Given :=
  if given.strict then none else some { given with strict := true }

def withUnparse (given : Given) : Option Given :=
  if given.unparse then none else some { given with unparse := true }

/-- Exactly one of the two inputs has to be given. -/
def request (given : Given) : Option Request :=
  match given.text, given.path with
  | some text, none => some (.invoke ⟨.text text, given.strict, given.unparse⟩)
  | none, some path => some (.invoke ⟨.file path, given.strict, given.unparse⟩)
  | _, _ => none

end Given

/-- One argument by its form. -/
inductive Argument
  /-- `--name` or `--name=value`. -/
  | long (name : String) (value : Option String)
  /-- A hyphen, a letter and what follows it. -/
  | short (letter : Char) (rest : List Char)
  /-- Two hyphens alone. -/
  | escape
  | plain (text : String)
  deriving DecidableEq, Repr

/-- Divides a text at the first equals sign. -/
def splitValue (text : List Char) : String × Option String :=
  (String.ofList (text.takeWhile (· != '=')),
    match text.dropWhile (· != '=') with
    | [] => none
    | _ :: value => some (String.ofList value))

def Argument.ofString (argument : String) : Argument :=
  match argument.toList with
  | ['-', '-'] => .escape
  | '-' :: '-' :: rest =>
      let (name, value) := splitValue rest
      .long name value
  | '-' :: letter :: rest => .short letter rest
  | _ => .plain argument

/-- The value attached to a letter. One equals sign before it does not count. -/
def attachedValue : List Char → Option String
  | [] => none
  | '=' :: value => some (String.ofList value)
  | value => some (String.ofList value)

/-- Reads the arguments after `--`. -/
def readPaths (given : Given) : List String → Option Request
  | [] => given.request
  | path :: more => (given.withPath path).bind (readPaths · more)

/-- Reads the arguments that are left. No request is a usage error. -/
def readArguments (given : Given) : List String → Option Request
  | [] => given.request
  | argument :: more =>
      match Argument.ofString argument with
      | .escape => readPaths given more
      | .plain path => (given.withPath path).bind (readArguments · more)
      | .long "strict" none => given.withStrict.bind (readArguments · more)
      | .long "unparse" none => given.withUnparse.bind (readArguments · more)
      | .long "version" none => some .version
      | .long "expr" (some text) => (given.withText text).bind (readArguments · more)
      | .long "expr" none => readValue given more
      | .short 'V' _ => some .version
      | .short 'e' rest =>
          match attachedValue rest with
          | some text => (given.withText text).bind (readArguments · more)
          | none => readValue given more
      | _ => none
where
  /-- Reads an expression that stands apart from its option. It may not look like an option. -/
  readValue (given : Given) : List String → Option Request
    | [] => none
    | text :: more =>
        match Argument.ofString text with
        | .plain text => (given.withText text).bind (readArguments · more)
        | _ => none

def Request.ofArguments (arguments : List String) : Option Request :=
  readArguments .nothing arguments

end AdaExpressions.CommandLine
