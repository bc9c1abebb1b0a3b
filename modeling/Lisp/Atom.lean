import Lisp.Error
import Lisp.Number.Numeral
import Lisp.Text.Escape

/-!
# Atoms

A token that is no parenthesis stands for a value by itself.  Text that claims to
be a number has to be a numeral, text that starts with a quote has to be a
complete string literal, three names stand for the two truth values and nil, and
every other token is a symbol.
-/

set_option autoImplicit false

namespace Lisp

/-- Whether text behind an opening quote is closed by its last character and by
none before. -/
def closesAtEnd : List Char → Bool
  | '\\' :: _ :: rest => closesAtEnd rest
  | ['"'] => true
  | '"' :: _ => false
  | ['\\'] => false
  | _ :: rest => closesAtEnd rest
  | [] => false

/-- Whether a token is a string literal with its closing quote. -/
def isCompleteLiteral : List Char → Bool
  | '"' :: rest => closesAtEnd rest
  | _ => false

/-- The value that a token stands for by itself. -/
def Value.ofAtom (token : String) : Except Error Value :=
  let text := token.toList
  if Numeral.claimsNumber text then
    match Numeral.read? text with
    | some numeral => .ok (.ofDouble numeral.toDouble)
    | none => .error (.malformedNumber token)
  else if token = "true" then .ok (.boolean true)
  else if token = "false" then .ok (.boolean false)
  else if token = "nil" then .ok .nil
  else if text.head? = some '"' then
    if isCompleteLiteral text then
      .ok (.string (String.ofList (Text.unescape (text.drop 1).dropLast)))
    else .error (.unbalancedString token)
  else .ok (.symbol token)

end Lisp
