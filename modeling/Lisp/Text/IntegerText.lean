import Lisp.Text.Blank
import Lisp.Text.DecimalDigit

/-!
# Integers from text

An integer may be surrounded by blanks and have one sign.  Its digits may come
from any script, with single underscores between them, and there may be 4300 of
them at most.
-/

set_option autoImplicit false

namespace Lisp.Text

/-- The most digits that are read as an integer. -/
def mostDigits : Nat := 4300

/-- The blanks that may surround an integer: all but the four ASCII separators. -/
def isIntegerMargin (c : Char) : Bool :=
  isBlank c && !(0x1c ≤ c.toNat && c.toNat ≤ 0x1f)

/-- Reads digits with single underscores between them, behind digits already
read, which are counted and valued. -/
def readDigits? (count value : Nat) : List Char → Option (Nat × Nat)
  | [] => if count = 0 then none else some (count, value)
  | '_' :: c :: rest =>
    if count = 0 then none
    else do readDigits? (count + 1) (10 * value + (← digitValue? c)) rest
  | c :: rest => do readDigits? (count + 1) (10 * value + (← digitValue? c)) rest

/-- The natural number that digits stand for, unless they are too many. -/
def readNatural? (text : List Char) : Option Nat := do
  let (count, value) ← readDigits? 0 0 text
  if count ≤ mostDigits then some value else none

/-- The integer that a text stands for. -/
def readInteger? (text : String) : Option Int :=
  match strip isIntegerMargin text.toList with
  | '-' :: digits => (readNatural? digits).map fun value => -(value : Int)
  | '+' :: digits => (readNatural? digits).map Int.ofNat
  | digits => (readNatural? digits).map Int.ofNat

end Lisp.Text
