import Lisp.Room
import Lisp.Value.Kind

/-!
# Equality of values

Two values are equal when they have the same kind and agree in what that kind
holds: lists item by item, numbers exactly, so that NaN is not equal to itself,
closures only with themselves, and native operations when they were registered
for the same root.

A comparison ends at the first difference.  A foreign value that it reaches
before is an error.
-/

set_option autoImplicit false

namespace Lisp.Value

mutual

/-- Whether two values are equal. -/
def isEqual (room : Room) (left right : Value) : Except Failure Bool :=
  match room.enter? Room.comparing with
  | none => .error (.fault .stackExhausted)
  | some inner => do
    let leftKind ← left.kind
    let rightKind ← right.kind
    if leftKind != rightKind then return false
    match left, right with
    | .list items, .list items' =>
      if items.length != items'.length then return false
      areEqual inner items items'
    | .boolean value, .boolean value' => return value == value'
    | .number n, .number n' => return n.equal n'
    | .string text, .string text' => return text == text'
    | .symbol name, .symbol name' => return name == name'
    | .closure identity .., .closure identity' .. => return identity == identity'
    | .native operation root, .native operation' root' =>
      return operation == operation' && root == root'
    | _, _ => return true

/-- Whether two lists are equal item by item. -/
def areEqual (room : Room) : List Value → List Value → Except Failure Bool
  | item :: rest, item' :: rest' => do
    if ← isEqual room item item' then areEqual room rest rest' else return false
  | _, _ => return true

end

end Lisp.Value
