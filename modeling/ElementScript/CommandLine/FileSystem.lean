import ElementScript.Text.Basic

/-!
The files that a command can see: those below the working directory.

A directory exists because of the files in it. Above the working directory nothing is known but
that there are directories. What is there may still be refused: a directory that may not be entered,
a file that may not be read, or one that cannot be written.
-/

namespace ElementScript.CommandLine

/-- The names that lead from the working directory to a place. -/
abbrev Path := List Text

/-- What can be refused at a path. -/
inductive Access where
  /-- To follow a name in a directory. -/
  | enter
  | read
  /-- To replace a file or to make one. -/
  | write
deriving DecidableEq, Repr

structure FileSystem where
  files : List (Path × ByteArray)
  /-- The reason why something is refused at a path, if it is. -/
  refusal : Access → Path → Option String := fun _ _ => none

/-- Why a file cannot be read or written. -/
inductive FileError where
  | notFound
  | notDirectory
  | isDirectory
  | notText
  /-- A directory on the way may not be entered. -/
  | unreachable (reason : String)
  /-- Any other reason that the operating system gives. -/
  | other (reason : String)
deriving DecidableEq, Repr

def FileError.reason : FileError → String
  | .notFound => "No such file or directory (os error 2)"
  | .notDirectory => "Not a directory (os error 20)"
  | .isDirectory => "Is a directory (os error 21)"
  | .notText => "stream did not contain valid UTF-8"
  | .unreachable reason => reason
  | .other reason => reason

/-- What a name leads to. -/
inductive Place where
  | directory (path : Path)
  | file (path : Path) (contents : ByteArray)
  /-- A name in a directory that has no such entry. -/
  | vacant (path : Path)
  /-- A name that is no directory with a slash after it. -/
  | slashed

/-- The parts of a text between its slashes. -/
def segments : Text → List Text
  | [] => [[]]
  | character :: rest =>
      match segments rest with
      | [] => [[character]]
      | first :: others =>
          if character = '/' then [] :: first :: others else (character :: first) :: others

def here : Text := ['.']

def above : Text := ['.', '.']

/-- The directory that absolute names start from. -/
def root : Path := [['/']]

def Path.parent (path : Path) : Path :=
  if path = root then root
  else if path.all (· = above) then path ++ [above]
  else path.dropLast

namespace FileSystem

def contents? (system : FileSystem) (path : Path) : Option ByteArray :=
  system.files.lookup path

/-- Whether a path is that of the working directory, of one above it, or of one with files in it. -/
def isDirectory (system : FileSystem) (path : Path) : Bool :=
  path.all (· = above) ||
    system.files.any fun file => path.isPrefixOf file.1 && path.length < file.1.length

def place (system : FileSystem) (path : Path) : Place :=
  match system.contents? path with
  | some contents => .file path contents
  | none => if system.isDirectory path then .directory path else .vacant path

/-- Follows a name in a directory. -/
def follow (system : FileSystem) (directory : Path) (name : Text) : Except FileError Place :=
  if name.isEmpty then .ok (.directory directory)
  else
    match system.refusal .enter directory with
    | some reason => .error (.unreachable reason)
    | none =>
        if name = here then .ok (.directory directory)
        else if name = above then .ok (.directory directory.parent)
        else .ok (system.place (directory ++ [name]))

/-- Follows names from a place on. -/
def walk (system : FileSystem) (start : Place) : List Text → Except FileError Place
  | [] => .ok start
  | name :: names =>
      match start with
      | .directory path =>
          match system.follow path name with
          | .error error => .error error
          | .ok next => system.walk next names
      | .file _ _ =>
          if (name :: names).all List.isEmpty then .ok .slashed else .error .notDirectory
      | .vacant _ => if (name :: names).all List.isEmpty then .ok .slashed else .error .notFound
      | .slashed => .error .notFound

/-- What a file name leads to. One that starts with a slash is absolute. -/
def resolve (system : FileSystem) (name : Text) : Except FileError Place :=
  let start : Path := if name.head? = some '/' then root else []
  system.walk (.directory start) (segments name)

/-- The answer at a path, unless it is refused. -/
def unlessRefused {α : Type} (system : FileSystem) (access : Access) (path : Path)
    (answer : Except FileError α) : Except FileError α :=
  match system.refusal access path with
  | some reason => .error (.other reason)
  | none => answer

def read (system : FileSystem) (name : Text) : Except FileError ByteArray :=
  match system.resolve name with
  | .ok (.file path contents) => system.unlessRefused .read path (.ok contents)
  | .ok (.directory path) => system.unlessRefused .read path (.error .isDirectory)
  | .ok (.vacant _) | .ok .slashed => .error .notFound
  | .error error => .error error

/-- The files with one of them replaced or added. -/
def put (system : FileSystem) (path : Path) (contents : ByteArray) : FileSystem :=
  { system with files := system.files.filter (·.1 ≠ path) ++ [(path, contents)] }

/-- Writes a file, which is made if its directory exists. -/
def write (system : FileSystem) (name : Text) (contents : ByteArray) :
    Except FileError FileSystem :=
  match system.resolve name with
  | .ok (.file path _) | .ok (.vacant path) =>
      system.unlessRefused .write path (.ok (system.put path contents))
  | .ok (.directory _) | .ok .slashed => .error .isDirectory
  | .error error => .error error

end FileSystem

end ElementScript.CommandLine
