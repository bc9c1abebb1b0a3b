import Lisp.Error

/-!
# Kinds of values

Every value of the language has one kind.  Asking for the kind of a foreign
value is an error.
-/

set_option autoImplicit false

namespace Lisp.Value

/-- The kind of a value. -/
def kind : Value → Except Failure Kind
  | .nil => .ok .nil
  | .boolean _ => .ok .boolean
  | .number _ => .ok .number
  | .string _ => .ok .string
  | .symbol _ => .ok .symbol
  | .list _ => .ok .list
  | .closure .. => .ok .closure
  | .native .. => .ok .native
  | .foreign text => .error (.error (.notValue text))

end Lisp.Value
