import Lisp.Files.Path
import Lisp.Text.Quoted
import Lisp.Text.Utf8

/-!
# File trees

A file tree is what lies below the working directory: files with their octets,
and directories.  A path is followed name by name from the working directory.
What lies above it, or below the root directory, is unknown; there every name
is missing, while stepping to a parent still leads to a directory.

Following a path fails at the first name that cannot be followed: a name inside
something that is no directory, a name that is too long, or a missing one.  A
path that is too long as a whole is not followed at all.
-/

set_option autoImplicit false

namespace Lisp

/-- A file or a directory. -/
inductive Entry where
  | file (octets : List UInt8)
  | directory
  deriving DecidableEq, Repr

/-- What lies below the working directory, each entry under its names from there. -/
structure FileTree where
  entries : List (List String × Entry)
  deriving DecidableEq, Repr

/-- Why a file could not be read as text. -/
inductive ReadFailure where
  | missing
  | insideFile
  | isDirectory
  | nameTooLong
  | notText (failure : Text.Utf8Failure)
  deriving DecidableEq, Repr

/-- The failure to read a path, in words. -/
def ReadFailure.message (path : Path) : ReadFailure → String
  | .missing => "[Errno 2] No such file or directory: " ++ Text.quoted path.text
  | .insideFile => "[Errno 20] Not a directory: " ++ Text.quoted path.text
  | .isDirectory => "[Errno 21] Is a directory: " ++ Text.quoted path.text
  | .nameTooLong => "[Errno 36] File name too long: " ++ Text.quoted path.text
  | .notText failure => failure.message

namespace FileTree

/-- The tree without files. -/
def empty : FileTree :=
  ⟨[]⟩

/-- The tree of the given files, each named by its path from the working directory. -/
def ofFiles (files : List (String × Entry)) : FileTree :=
  ⟨files.map fun file => ((Path.ofText file.1).names, file.2)⟩

/-- What stands at these names; a directory is also there when something lies in it. -/
def entry? (tree : FileTree) (names : List String) : Option Entry :=
  if names.isEmpty then some .directory
  else
    match tree.entries.find? fun entry => entry.1 == names with
    | some entry => some entry.2
    | none =>
      if tree.entries.any fun entry => names.isPrefixOf entry.1 then some .directory else none

/-! ## Following paths -/

/-- A place in the file system: inside the tree, under names from the working
directory, or in a directory outside it. -/
inductive Place where
  | inside (names : List String)
  | outside
  deriving DecidableEq, Repr

/-- What stands at a place. -/
def at? (tree : FileTree) : Place → Option Entry
  | .inside names => tree.entry? names
  | .outside => some .directory

/-- The most octets of a name. -/
def longestName : Nat := 255

/-- The most octets of a path. -/
def longestPath : Nat := 4095

/-- The place that one name leads to. -/
def follow (tree : FileTree) (place : Place) (name : String) : Except ReadFailure Place :=
  match tree.at? place with
  | none => .error .missing
  | some (.file _) => .error .insideFile
  | some .directory =>
    if name == ".." then
      match place with
      | .inside [] => .ok .outside
      | .inside names => .ok (.inside names.dropLast)
      | .outside => .ok .outside
    else if longestName < name.utf8ByteSize then .error .nameTooLong
    else
      match place with
      | .inside names =>
        if (tree.entry? (names ++ [name])).isSome then .ok (.inside (names ++ [name]))
        else .error .missing
      | .outside => .error .missing

/-- The place at the end of a path. -/
def walk (tree : FileTree) (path : Path) : Except ReadFailure Place :=
  if longestPath < path.text.utf8ByteSize then .error .nameTooLong
  else path.names.foldlM tree.follow (if path.isAbsolute then .outside else .inside [])

/-- The entry at the end of a path. -/
def resolve (tree : FileTree) (path : Path) : Except ReadFailure Entry := do
  match tree.at? (← tree.walk path) with
  | some entry => .ok entry
  | none => .error .missing

/-- Whether a path leads to a directory.  One that leads nowhere does not; of one
that is too long, or has a name that is, the question has no answer. -/
def isDirectory (tree : FileTree) (path : Path) : Except ReadFailure Bool :=
  match tree.resolve path with
  | .ok entry => .ok (entry == .directory)
  | .error .nameTooLong => .error .nameTooLong
  | .error _ => .ok false

/-! ## Reading -/

/-- The text of a file, its line endings unified. -/
def readText (tree : FileTree) (path : Path) : Except ReadFailure String :=
  match tree.resolve path with
  | .error failure => .error failure
  | .ok .directory => .error .isDirectory
  | .ok (.file octets) =>
    match Text.decodeUtf8 octets with
    | .error failure => .error (.notText failure)
    | .ok text => .ok (String.ofList (Text.unifyNewlines text))

/-- The names of the entries of a directory, each once. -/
def names (tree : FileTree) (path : Path) : List String :=
  match tree.walk path with
  | .ok (.inside above) =>
    (tree.entries.filterMap fun entry =>
      if above.isPrefixOf entry.1 then (entry.1.drop above.length).head? else none).eraseDups
  | _ => []

end FileTree

end Lisp
