/-!
# Paths

The parts of a path that decide how a file is treated: its name, the extension of the name, and
the same path with another extension.

* `Path.fileName?` — the last component, unless that is the parent directory.
* `Path.extension?` — what follows the last dot of the name. A dot that starts the name does not
  count.
* `Path.setExtension` — the path with an extension put on the stem of its name.
* `Path.withExtension` — the same for a path whose old extension is cut off first.
-/

namespace BitMachine.Path

/-- A path without the slashes, and the dots that stand for the same directory, at its end. -/
def trimTail (path : List Char) : List Char :=
  (dropTail path.reverse).reverse
where
  /-- The same for a reversed path. -/
  dropTail : List Char → List Char
    | '/' :: rest => dropTail rest
    | ['.'] => ['.']
    | '.' :: '/' :: rest => dropTail rest
    | cs => cs

/-- The directory part of a path, with its slash, and the last component. -/
def splitLast (path : List Char) : List Char × List Char :=
  let name := (path.reverse.takeWhile (· != '/')).reverse
  (path.take (path.length - name.length), name)

/-- The name of the file that a path leads to. -/
def fileName? (path : List Char) : Option (List Char) :=
  let name := (splitLast (trimTail path)).2
  if name = [] || name = ['.'] || name = ['.', '.'] then none else some name

/-- The parts of a name before and after its last dot, if that dot does not start the name. -/
def splitExtension (name : List Char) : List Char × Option (List Char) :=
  let after := (name.reverse.takeWhile (· != '.')).reverse
  let stem := name.take (name.length - after.length - 1)
  if after.length < name.length && !stem.isEmpty then (stem, some after) else (name, none)

/-- The extension of the file that a path leads to. -/
def extension? (path : String) : Option String := do
  let name ← fileName? path.toList
  (splitExtension name).2.map String.ofList

/-- The path with an extension on the stem of its name, in place of all that follows the stem. A
    path without a file name stays as it is. -/
def setExtension (path extension : List Char) : List Char :=
  match fileName? path with
  | none => path
  | some name =>
    let directory := (splitLast (trimTail path)).1
    directory ++ (splitExtension name).1 ++ '.' :: extension

/-- The path with another extension. As many characters as the old one has are first cut from the
    end of the path. The name `..x` is cut to the parent directory, which takes no extension. -/
def withExtension (path extension : String) : String :=
  let cs := path.toList
  let old := ((extension? path).getD "").toList
  String.ofList (setExtension (cs.take (cs.length - old.length)) extension.toList)

end BitMachine.Path
