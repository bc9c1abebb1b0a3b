import Lisp.Text.Escape
import Lisp.Value.Shown

/-!
# Values as programs print them

A readable text quotes and escapes strings, so that it can be read back; a
display text leaves them as they are.  The two differ in nothing else.

Rendering goes from left to right and stops at the first value that has no text:
a foreign value, or an integer that no double is near.
-/

set_option autoImplicit false

namespace Lisp

/-- Whether a text is to be read back or to be looked at. -/
inductive Style where
  | readable
  | display
  deriving DecidableEq, Repr

/-- A string as programs print it. -/
def Style.string : Style → String → String
  | .readable, text => String.ofList ('"' :: (Text.escape text.toList ++ ['"']))
  | .display, text => text

namespace Value

mutual

/-- The text of a value as programs print it. -/
def render (style : Style) (room : Room) (value : Value) : Except Failure String :=
  match room.enter? Room.writing with
  | none => .error (.fault .stackExhausted)
  | some inner =>
    match value with
    | .nil => .ok "nil"
    | .boolean true => .ok "true"
    | .boolean false => .ok "false"
    | .number n =>
      match n.positionalText? with
      | some text => .ok text
      | none => .error (.fault .integerTooLarge)
    | .string text => .ok (style.string text)
    | .symbol name => .ok name
    | .list items => do
      let texts ← renderItems style inner items
      return "(" ++ " ".intercalate texts ++ ")"
    | .closure _ parameters _ _ => .ok (closureText parameters)
    | .native operation _ => .ok (nativeText operation)
    | .foreign text => .error (.error (.notRenderable text))

/-- The texts of the items of a list. -/
def renderItems (style : Style) (room : Room) : List Value → Except Failure (List String)
  | [] => .ok []
  | item :: rest => do
    let text ← render style room item
    let texts ← renderItems style room rest
    return text :: texts

end

end Value

end Lisp
