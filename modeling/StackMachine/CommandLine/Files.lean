set_option autoImplicit false

/-! # Files

The program reads files by path. `Directory` is a working directory in memory, so that the
command line can be run without a disk. Of what lies around it only the top of the file system
is known: the usual directories under the root, and the null device, which reads as empty.
-/

namespace StackMachine.CommandLine

/-- Why a file cannot be read. -/
inductive FileError where
  | notFound
  | permissionDenied
  | notADirectory
  | isADirectory
  | nameTooLong
  | notText
  | other (message : String)
  deriving DecidableEq, Repr

/-- The wording of a file error. -/
def FileError.message : FileError → String
  | notFound => "No such file or directory (os error 2)"
  | permissionDenied => "Permission denied (os error 13)"
  | notADirectory => "Not a directory (os error 20)"
  | isADirectory => "Is a directory (os error 21)"
  | nameTooLong => "File name too long (os error 36)"
  | notText => "stream did not contain valid UTF-8"
  | other message => message

/-- How files are read. -/
abbrev Reader := String → Except FileError String

/-- Whether the last component of a path ends in `.json`. A dot at the start of the component
starts no extension. -/
def isJsonPath (path : String) : Bool :=
  let components := (path.splitOn "/").filter fun c => c ≠ "" && c ≠ "."
  match components.getLast? with
  | none => false
  | some name => ".json".toList.isSuffixOf name.toList && 5 < name.length

/-- A directory without subdirectories: file names and texts. -/
structure Directory where
  files : List (String × String)
  deriving DecidableEq, Repr

/-- The directories under the root. -/
def topDirectories : List String :=
  ["bin", "boot", "dev", "etc", "home", "lib", "media", "mnt", "opt", "proc", "root", "run",
    "sbin", "srv", "sys", "tmp", "usr", "var"]

/-- What a path leads to so far. -/
inductive Location where
  | working
  | above
  | root
  | top (name : String)
  | file (text : String)
  deriving DecidableEq, Repr

/-- The longest component of a path, in bytes. -/
def maxNameBytes : Nat := 255

/-- The longest path, in bytes. -/
def maxPathBytes : Nat := 4095

namespace Directory

/-- What a name stands for in a directory. -/
def find (d : Directory) : Location → String → Option Location
  | .working, name => (d.files.lookup name).map .file
  | .root, name => if name ∈ topDirectories then some (.top name) else none
  | .top "dev", "null" => some (.file "")
  | _, _ => none

/-- Follow one component of a path. -/
def follow (d : Directory) : Location → String → Except FileError Location
  | .file _, _ => .error .notADirectory
  | location, "" => .ok location
  | location, "." => .ok location
  | .root, ".." => .ok .root
  | .top _, ".." => .ok .root
  | _, ".." => .ok .above
  | location, name =>
    if maxNameBytes < name.utf8ByteSize then .error .nameTooLong
    else (d.find location name).elim (.error .notFound) .ok

/-- Follow a path, from the root if it starts with a slash. -/
def resolve (d : Directory) (path : String) : Except FileError Location :=
  if path = "" then .error .notFound
  else if maxPathBytes < path.utf8ByteSize then .error .nameTooLong
  else
    let start := if path.toList.head? = some '/' then Location.root else .working
    (path.splitOn "/").foldlM d.follow start

/-- Read a file of the directory. -/
def read (d : Directory) : Reader := fun path =>
  (d.resolve path).bind fun
    | .file text => .ok text
    | _ => .error .isADirectory

end Directory

end StackMachine.CommandLine
