/-!
# Paths

A path is made of names, behind no slash, one or two.  Reading one from text
drops empty names and names that stay in place, so paths are held in the form
in which they are shown; steps to a parent directory are kept, since a path
alone does not tell where they lead.
-/

set_option autoImplicit false

namespace Lisp

/-- A path: the slashes in front, of which there are at most two, and the names
behind them. -/
structure Path where
  slashes : Nat
  names : List String
  deriving DecidableEq, Repr

namespace Path

/-- How many slashes a path has in front: two only if the text has exactly two. -/
def leadingSlashes : List Char → Nat
  | '/' :: '/' :: '/' :: _ => 1
  | '/' :: '/' :: _ => 2
  | '/' :: _ => 1
  | _ => 0

/-- The path that a text denotes. -/
def ofText (text : String) : Path where
  slashes := leadingSlashes text.toList
  names :=
    ((text.toList.splitOn '/').map String.ofList).filter fun name => name != "" && name != "."

/-- The text of a path. -/
def text (path : Path) : String :=
  if path.slashes = 0 && path.names.isEmpty then "."
  else String.ofList (List.replicate path.slashes '/') ++ "/".intercalate path.names

/-- Whether the path starts from the root directory. -/
def isAbsolute (path : Path) : Bool :=
  path.slashes != 0

/-- The path without its last name; a path without names is its own parent. -/
def parent (path : Path) : Path :=
  { path with names := path.names.dropLast }

/-- The path of a name inside a directory. -/
def child (path : Path) (name : String) : Path :=
  { path with names := path.names ++ [name] }

end Path

/-- The ending of a file name from its last point on, unless the point stands at
either end of the name. -/
def nameSuffix (name : String) : String :=
  let reversed := name.toList.reverse
  let ending := reversed.takeWhile fun c => c != '.'
  let stem := (reversed.dropWhile fun c => c != '.').drop 1
  if ending.isEmpty || stem.isEmpty then "" else String.ofList ('.' :: ending.reverse)

end Lisp
