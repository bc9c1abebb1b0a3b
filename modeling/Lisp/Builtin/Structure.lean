import Lisp.Value.Equality
import Lisp.Value.Rendered

/-!
# Equality, lists and texts of values

The operations here take values of any kind, or ask for a list.  Where a list is
asked for, nil stands for the empty one.
-/

set_option autoImplicit false

namespace Lisp.Builtin

/-- The one argument of an operation that takes exactly one. -/
def onlyArgument (operation : Builtin) : List Value → Except Failure Value
  | [argument] => .ok argument
  | arguments => .error (.error (.argumentCount operation 1 arguments.length))

/-- Whether the first value equals each of the others, which are compared until
one differs. -/
def allEqual (room : Room) (first : Value) : List Value → Except Failure Bool
  | [] => .ok true
  | other :: rest => do
    if ← first.isEqual room other then allEqual room first rest else return false

/-- Whether all arguments equal the first. -/
def same (room : Room) : List Value → Except Failure Value
  | [] => .error (.error (.noArguments .equal))
  | first :: rest => do return .boolean (← allEqual room first rest)

/-- The items of an argument that has to be a list. -/
def listArgument (operation : Builtin) (arguments : List Value) : Except Failure (List Value) := do
  match ← onlyArgument operation arguments with
  | .nil => return []
  | .list items => return items
  | other => throw (.error (.notList operation (← other.kind)))

/-- Whether the argument is a list. -/
def isListValue (arguments : List Value) : Except Failure Value := do
  match ← onlyArgument .isList arguments with
  | .list _ => return .boolean true
  | _ => return .boolean false

/-- Whether a list has no items. -/
def isEmptyList (arguments : List Value) : Except Failure Value := do
  return .boolean (← listArgument .isEmpty arguments).isEmpty

/-- How many items a list has. -/
def itemCount (arguments : List Value) : Except Failure Value := do
  return .ofDouble (.ofInt (← listArgument .count arguments).length)

/-- The display texts of the arguments, joined. -/
def joined (room : Room) (arguments : List Value) : Except Failure Value := do
  return .string (String.join (← Value.renderItems .display room arguments))

/-- The line that shows the arguments readably. -/
def line (room : Room) (arguments : List Value) : Except Failure String := do
  return " ".intercalate (← Value.renderItems .readable room arguments) ++ "\n"

end Lisp.Builtin
