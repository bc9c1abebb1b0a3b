import Lisp.Value.Kind

/-!
# Arithmetic and comparison of numbers

These operations take numbers only.  All arguments are checked, from left to
right, before anything is computed.  The comparisons hold of a list of numbers
when they hold of each number and the next.
-/

set_option autoImplicit false

namespace Lisp.Builtin

/-- The numbers that the arguments of an operation are. -/
def numbers (operation : Builtin) : List Value → Except Failure (List Number)
  | [] => .ok []
  | .number n :: rest => do return n :: (← numbers operation rest)
  | other :: _ => do throw (.error (.notNumber operation (← other.kind)))

/-- A result of arithmetic as a value; an integer among the numbers may have been
too large for a double. -/
def numeric : Option Double → Except Failure Value
  | some x => .ok (.ofDouble x)
  | none => .error (.fault .integerTooLarge)

/-- The sum of the arguments. -/
def sum (arguments : List Value) : Except Failure Value := do
  numeric (Number.sum? (← numbers .add arguments))

/-- The first argument less the others, or the negative of a lone one. -/
def difference (arguments : List Value) : Except Failure Value := do
  match ← numbers .subtract arguments with
  | [] => throw (.error (.noArguments .subtract))
  | first :: rest => numeric (first.difference? rest)

/-- The product of the arguments. -/
def product (arguments : List Value) : Except Failure Value := do
  numeric (Number.product? (← numbers .multiply arguments))

/-- The first argument divided by the others, or the inverse of a lone one. -/
def quotient (arguments : List Value) : Except Failure Value := do
  match ← numbers .divide arguments with
  | [] => throw (.error (.noArguments .divide))
  | first :: rest => numeric (first.quotient? rest)

/-- Whether a relation holds of each number and the next. -/
def holdsAlong (relation : Number → Number → Bool) : List Number → Bool
  | first :: second :: rest => relation first second && holdsAlong relation (second :: rest)
  | _ => true

/-- Whether the arguments are numbers in the order of a relation. -/
def ordered (operation : Builtin) (relation : Number → Number → Bool) (arguments : List Value) :
    Except Failure Value := do
  return .boolean (holdsAlong relation (← numbers operation arguments))

end Lisp.Builtin
