import Lisp.Builtin.Arithmetic
import Lisp.Builtin.Structure
import Lisp.Form
import Lisp.Step

/-!
# Calling native operations

Most native operations compute their result from their arguments alone.  Three
do more: one writes a line out, one reads a file, and one evaluates a form in
the root frame it was registered for, whatever frame it is called from.
-/

set_option autoImplicit false

namespace Lisp.Builtin

/-- The text of the file that the argument names. -/
def fileText (files : FileTree) (arguments : List Value) : Except Failure Value := do
  match ← onlyArgument .readFile arguments with
  | .string name =>
    if name.contains '\x00' then throw (.fault .nulInFileName)
    match files.readText (Path.ofText name) with
    | .ok text => return .string text
    | .error failure => throw (.error (.unreadableFile name failure))
  | other => throw (.error (.notFileName (← other.kind)))

/-- The first form of the text that the argument is. -/
def formOfText (room : Room) (arguments : List Value) : Except Failure Value := do
  match ← onlyArgument .readText arguments with
  | .string source => Lisp.readText room source
  | other => throw (.error (.notSource (← other.kind)))

/-- Evaluates the argument in a root frame. -/
def evaluateIn (evaluator : Evaluator) (room : Room) (root : FrameId) (arguments : List Value) :
    Action Value :=
  match onlyArgument .evaluate arguments with
  | .ok form => evaluator.nested Room.reentry room form root
  | .error failure => Action.fail failure

/-- Calls a native operation that was registered for a root. -/
def call (operation : Builtin) (files : FileTree) (evaluator : Evaluator) (room : Room)
    (root : FrameId) (arguments : List Value) : Action Value :=
  match operation with
  | .add => .ofExcept (sum arguments)
  | .subtract => .ofExcept (difference arguments)
  | .multiply => .ofExcept (product arguments)
  | .divide => .ofExcept (quotient arguments)
  | .less => .ofExcept (ordered .less Number.less arguments)
  | .lessOrEqual => .ofExcept (ordered .lessOrEqual Number.lessOrEqual arguments)
  | .greater => .ofExcept (ordered .greater (fun left right => right.less left) arguments)
  | .greaterOrEqual =>
    .ofExcept (ordered .greaterOrEqual (fun left right => right.lessOrEqual left) arguments)
  | .equal => .ofExcept (same room arguments)
  | .list => pure (.list arguments)
  | .isList => .ofExcept (isListValue arguments)
  | .isEmpty => .ofExcept (isEmptyList arguments)
  | .count => .ofExcept (itemCount arguments)
  | .printLine => do
    Action.write (← Action.ofExcept (line room arguments))
    return .nil
  | .concatenate => .ofExcept (joined room arguments)
  | .readFile => .ofExcept (fileText files arguments)
  | .readText => .ofExcept (formOfText room arguments)
  | .evaluate => evaluateIn evaluator room root arguments

end Lisp.Builtin
