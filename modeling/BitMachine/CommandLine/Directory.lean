import BitMachine.FileError
import BitMachine.Text.Utf8

/-!
# A working directory

Files as the commands see them: a flat directory of named files. A path is followed name by name,
and every name but the last has to lead to a directory. In other directories, which an absolute
path or two dots lead to, there are no files but those that were written there; such a file is kept
under its whole path.

* `Directory.follow`, `Directory.resolve` — what a path leads to.
* `Directory.read`, `Directory.write` — the files. A slash at the end of a path asks for a
  directory: with it no file is read, and none is made.
-/

namespace BitMachine

/-- The files of a directory. -/
structure Directory where
  /-- The names, or the paths of files elsewhere, and the contents. -/
  files : List (String × List UInt8) := []

namespace Directory

/-- What a path leads to. -/
inductive Place where
  /-- A directory. -/
  | directory
  /-- A name, whether or not a file has it, and what its file is kept under. -/
  | entry (name key : String)
deriving DecidableEq

/-- The number of bytes that a name can have. -/
def nameLimit : Nat := 255

/-- The number of bytes that a path stays below. -/
def pathLimit : Nat := 4096

/-- The names in a path. -/
def names (path : String) : List String :=
  ((path.toList.splitOn '/').filter fun name => !name.isEmpty).map String.ofList

/-- Whether a path starts at the root. -/
def isAbsolute (path : String) : Bool :=
  path.toList.head? == some '/'

/-- Whether a path ends with a slash. -/
def asksForDirectory (path : String) : Bool :=
  path.toList.getLast? == some '/'

/-- Whether a name is longer than a file's can be. -/
def isTooLong (name : String) : Bool :=
  nameLimit < name.utf8ByteSize

/-- Why no file is found under a name that none has. -/
def missing (name : String) : FileError :=
  if isTooLong name then .nameTooLong else .notFound

/-- The content of a file. -/
def content? (d : Directory) (key : String) : Option (List UInt8) :=
  d.files.lookup key

/-- Follows the last names of a path, from the working directory if `here` says so. -/
def follow (d : Directory) (path : String) (here : Bool) :
    List String → Except FileError Place
  | [] => .ok .directory
  | name :: rest =>
    if name = "." then d.follow path here rest
    else if name = ".." then d.follow path false rest
    else if rest.isEmpty then .ok (.entry name (if here then name else path))
    else .error (if here && (d.content? name).isSome then .notADirectory else missing name)

/-- What a path leads to. -/
def resolve (d : Directory) (path : String) : Except FileError Place :=
  if path.isEmpty then .error .notFound
  else if pathLimit ≤ path.utf8ByteSize then .error .nameTooLong
  else d.follow path (!isAbsolute path) (names path)

/-- The content of the file that a path leads to. -/
def read (d : Directory) (path : String) : Except FileError (List UInt8) := do
  match ← d.resolve path with
  | .directory => throw .isADirectory
  | .entry name key =>
    match d.content? key with
    | none => throw (missing name)
    | some content => if asksForDirectory path then throw .notADirectory else return content

/-- The directory with a file, in place of any other content it has. -/
def insert (d : Directory) (key : String) (content : List UInt8) : Directory :=
  ⟨(key, content) :: d.files.filter (·.1 ≠ key)⟩

/-- Writes a file. -/
def write (d : Directory) (path : String) (content : List UInt8) :
    Except FileError Directory := do
  match ← d.resolve path with
  | .directory => throw .isADirectory
  | .entry name key =>
    if asksForDirectory path then throw .isADirectory
    else if isTooLong name then throw .nameTooLong
    else return d.insert key content

end Directory

end BitMachine
