import Lisp.Number.Double

/-!
# Numerals

A numeral is an optional minus sign, digits, and optionally a point with further
digits; a digit must stand on one side of the point at least.  Text made only of
digits and points behind an optional sign claims to be a number, and is
malformed when it is not a numeral.

Every numeral has a double.  Conversion is taken as it is documented: correctly
rounded, whatever the number of digits.  That a host refuses texts of more than
a thousand million digits is left out.
-/

set_option autoImplicit false

namespace Lisp

/-- A numeral taken apart. -/
structure Numeral where
  negative : Bool
  whole : List Char
  fraction : List Char
  deriving DecidableEq, Repr

namespace Numeral

/-- Whether a text starts with a minus sign. -/
def hasSign : List Char → Bool
  | '-' :: _ => true
  | _ => false

/-- A text without its leading minus sign. -/
def unsigned : List Char → List Char
  | '-' :: rest => rest
  | text => text

/-- Whether a text claims to be a number: an optional minus sign before digits
and points only, at least one of them. -/
def claimsNumber (text : List Char) : Bool :=
  !(unsigned text).isEmpty && (unsigned text).all fun c => c.isDigit || c == '.'

/-- The numeral that a text is, if it is one. -/
def read? (text : List Char) : Option Numeral :=
  let body := unsigned text
  let whole := body.takeWhile Char.isDigit
  match body.dropWhile Char.isDigit with
  | [] => if whole.isEmpty then none else some ⟨hasSign text, whole, []⟩
  | '.' :: fraction =>
    if fraction.all Char.isDigit && !(whole.isEmpty && fraction.isEmpty) then
      some ⟨hasSign text, whole, fraction⟩
    else none
  | _ :: _ => none

/-- The double nearest to what a numeral denotes. -/
def toDouble (numeral : Numeral) : Double :=
  .ofDecimal numeral.negative (Nat.ofDigitChars 10 (numeral.whole ++ numeral.fraction) 0)
    (-(numeral.fraction.length : Int))

end Numeral

end Lisp
