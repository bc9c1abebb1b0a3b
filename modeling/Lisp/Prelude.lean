import Lisp.Settings

/-!
# The prelude

A prelude is made of source files that are evaluated, in the order of their
names, when a root is built.  Unless a directory is set, it is the one that comes
with the interpreter, which defines `load-file`.
-/

set_option autoImplicit false

namespace Lisp.Prelude

/-- The ending of the names of prelude files. -/
def suffix : String := ".mal"

/-- The prelude that comes with the interpreter: its files with their texts. -/
def packaged : List (String × String) :=
  [("core.mal",
    ";; Core definitions built from native primitives.\n\n" ++
    ";; Read every form of a file and evaluate it in the root environment.\n" ++
    "(def! load-file\n" ++
    "  (fn* (f)\n" ++
    "    (eval (read-string (str \"(do \" (slurp f) \"\\nnil)\")))))\n")]

/-- Whether the prelude is the packaged one. -/
def isPackaged (settings : Settings) : Bool :=
  match settings.preludePath with
  | none => true
  | some text => text.isEmpty

/-- The directory of a prelude that is not packaged: the first path that is set, or
what holds it when it is no directory itself. -/
def directory (settings : Settings) (files : FileTree) : Except Fault Path :=
  match Settings.paths settings.preludePath [] with
  | [] => .error .noPreludePath
  | path :: _ =>
    match files.isDirectory path with
    | .ok isDirectory => .ok (if isDirectory then path else path.parent)
    | .error failure => .error (.unreadablePrelude failure)

/-- The files of a prelude that is not packaged, by name. -/
def paths (settings : Settings) (files : FileTree) : Except Fault (List Path) := do
  let directory ← directory settings files
  let names := (files.names directory).filter fun name => nameSuffix name == suffix
  return (names.mergeSort fun left right => decide (left ≤ right)).map directory.child

/-- The text of a prelude file. -/
def text (files : FileTree) (path : Path) : Except Failure String :=
  match files.readText path with
  | .ok text => .ok text
  | .error failure => .error (.fault (.unreadablePrelude failure))

end Lisp.Prelude
