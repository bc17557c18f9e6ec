/-!
# Directories

The files below a directory, each by the names that lead to it. A path is followed name by name: an
empty name or a point stays, two points go up, and anything but the last name has to be a directory.
Names and whole paths have a greatest size. A path is measured before it is followed, a name when it
is looked for in a directory, so that the first fault on the way is the one reported.

Every place is known by the names that lead to it from the root. Two points at the root stay there.
Outside the directory only what every system has is known: the directories above it, the first ones
below the root, and the empty files `/dev/null` and `/dev/stdin`.
-/

namespace AdaExpressions.CommandLine

/-- Why a file cannot be read. -/
inductive ReadFailure
  | missing
  | notDirectory
  | isDirectory
  | nameTooLong
  | denied
  | notText
  /-- A reason in the system's words. -/
  | system (reason : String)
  deriving DecidableEq, Repr

def ReadFailure.reason : ReadFailure → String
  | .missing => "No such file or directory (os error 2)"
  | .notDirectory => "Not a directory (os error 20)"
  | .isDirectory => "Is a directory (os error 21)"
  | .nameTooLong => "File name too long (os error 36)"
  | .denied => "Permission denied (os error 13)"
  | .notText => "stream did not contain valid UTF-8"
  | .system reason => reason

def pathNames (path : String) : List String :=
  path.splitOn "/"

/-- The names of a path that do not stay where they are. -/
def movingNames (path : String) : List String :=
  (pathNames path).filter fun name => name != "" && name != "."

/-- The greatest size of a name, in bytes. -/
def nameLimit : Nat := 255

/-- The greatest size of a path, in bytes. -/
def pathLimit : Nat := 4095

/-- Directories that lie directly below the root. -/
def systemDirectories : List String :=
  ["bin", "boot", "dev", "etc", "home", "lib", "media", "mnt", "opt", "proc", "root", "run", "sbin",
   "srv", "sys", "tmp", "usr", "var"]

/-- The names of `location` lead to the directory from the root. -/
structure Directory where
  location : List String
  files : List (List String × ByteArray)

namespace Directory

/-- What a sequence of names leads to. -/
inductive Entry
  | file (content : ByteArray)
  | directory

/-- A working directory among the temporary files, with these files by their paths. -/
def ofFiles (files : List (String × ByteArray)) : Directory :=
  ⟨["tmp", "work"], files.map fun (path, content) => (movingNames path, content)⟩

/-- What names lead to from the directory. -/
def entry? (directory : Directory) (names : List String) : Option Entry :=
  match directory.files.find? fun file => file.1 == names with
  | some file => some (.file file.2)
  | none =>
      if names.isEmpty || directory.files.any fun file => names.isPrefixOf file.1 then
        some .directory
      else none

/-- What names lead to from the root, as far as every system has it. -/
def systemEntry? : List String → Option Entry
  | ["dev", "null"] => some (.file .empty)
  | ["dev", "stdin"] => some (.file .empty)
  | [name] => if name ∈ systemDirectories then some .directory else none
  | _ => none

/-- What names lead to from the root. -/
def entryAt? (directory : Directory) (place : List String) : Option Entry :=
  match directory.location.isPrefixOf? place with
  | some names => directory.entry? names
  | none => if place.isPrefixOf directory.location then some .directory else systemEntry? place

/-- Follows names from a place to what they lead to. -/
def follow (directory : Directory) (place : List String) : List String → Except ReadFailure Entry
  | [] => match directory.entryAt? place with
      | some entry => .ok entry
      | none => .error .missing
  | name :: more =>
      match directory.entryAt? place with
      | none => .error .missing
      | some (.file _) => .error .notDirectory
      | some .directory =>
          if name = "" ∨ name = "." then directory.follow place more
          else if name = ".." then directory.follow place.dropLast more
          else if nameLimit < name.utf8ByteSize then .error .nameTooLong
          else directory.follow (place ++ [name]) more

/-- What a path leads to, from the root if it starts with a slash. -/
def resolve (directory : Directory) (path : String) : Except ReadFailure Entry :=
  if pathLimit < path.utf8ByteSize then .error .nameTooLong
  else directory.follow (if path.startsWith "/" then [] else directory.location) (pathNames path)

/-- The text of the file at a path. -/
def read (directory : Directory) (path : String) : Except ReadFailure String :=
  match directory.resolve path with
  | .error failure => .error failure
  | .ok .directory => .error .isDirectory
  | .ok (.file content) => match String.fromUTF8? content with
    | some text => .ok text
    | none => .error .notText

end Directory

end AdaExpressions.CommandLine
