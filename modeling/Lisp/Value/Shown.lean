import Lisp.Error
import Lisp.Number.Text
import Lisp.Room

/-!
# Values in messages

A message shows a value so that its kind can be told from its text: strings are
quoted, symbols are marked, whole numbers end in `.0`, and lists stand in square
brackets.  Every value can be shown, integers of any length included; only the
room for nested lists can run out.
-/

set_option autoImplicit false

namespace Lisp.Value

mutual

/-- The text of a value in a message. -/
def shown (room : Room) (value : Value) : Except Fault String :=
  match room.enter? Room.writing with
  | none => .error .stackExhausted
  | some inner =>
    match value with
    | .nil => .ok "nil"
    | .boolean true => .ok "True"
    | .boolean false => .ok "False"
    | .number n => .ok n.shownText
    | .string text => .ok (Text.quoted text)
    | .symbol name => .ok ("Symbol(" ++ Text.quoted name ++ ")")
    | .list items => do
      let texts ← shownItems inner items
      return "[" ++ ", ".intercalate texts ++ "]"
    | .closure _ parameters _ _ => .ok (closureText parameters)
    | .native operation _ => .ok (nativeText operation)
    | .foreign text => .ok text

/-- The texts of the items of a list. -/
def shownItems (room : Room) : List Value → Except Fault (List String)
  | [] => .ok []
  | item :: rest => do
    let text ← shown room item
    let texts ← shownItems room rest
    return text :: texts

end

/-- The text of a value in a message that names it: strings and symbols stand for
themselves, other values are shown. -/
def plain (room : Room) : Value → Except Fault String
  | .string text => .ok text
  | .symbol name => .ok name
  | value => value.shown room

end Lisp.Value
