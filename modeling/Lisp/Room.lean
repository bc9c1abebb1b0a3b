/-!
# Room on the stack

Nested work needs stack frames, and there is only room for so many.  Entering a
level takes the frames of that level out of the room that is left; a level that
does not fit is not entered.  With unlimited room everything fits.

Only nesting takes room.  What is done one after the other at one level finds
the same room each time.
-/

set_option autoImplicit false

namespace Lisp

/-- The stack frames that are left. -/
inductive Room where
  | unlimited
  | frames (left : Nat)
  deriving DecidableEq, Repr

namespace Room

/-- The room inside a level that takes `cost` frames, if the level fits. -/
def enter? (cost : Nat) : Room → Option Room
  | .unlimited => some .unlimited
  | .frames left => if cost ≤ left then some (.frames (left - cost)) else none

/-- The room outside a level that took `cost` frames. -/
def leave (cost : Nat) : Room → Room
  | .unlimited => .unlimited
  | .frames left => .frames (left + cost)

/-! ## What a level costs -/

/-- Frames for evaluating a form inside another. -/
def evaluation : Nat := 3

/-- Frames for evaluating a form through a native operation. -/
def reentry : Nat := 6

/-- Frames for reading a list. -/
def reading : Nat := 2

/-- Frames for writing out a value. -/
def writing : Nat := 1

/-- Frames for comparing two values. -/
def comparing : Nat := 2

end Room

end Lisp
