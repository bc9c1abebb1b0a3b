import Lisp.Number.Decimal
import Lisp.Number.Basic

/-!
# Numbers as text

Two ways of writing a number, both with its shortest digits.  Positional
notation, which programs print, never has an exponent and ends in neither a
point nor a zero behind one.  The scaled notation, which messages show, marks a
whole number with `.0` and passes to a power of ten where the positional form
would be long.

An integer has a text in messages however long it is.  A host may refuse to
write one out that has more digits than it reads (`Text.mostDigits`); that is
left out.  Programs make no integers, so only a host that passes one in can meet
the difference.
-/

set_option autoImplicit false

namespace Lisp

namespace Decimal

/-- Digits with a point behind the first `position` of them, zeros filling the
gap when the point lies further left. -/
def withPoint (digits : List Char) (position : Int) : List Char :=
  if 0 < position then
    digits.take position.toNat ++ '.' :: digits.drop position.toNat
  else
    '0' :: '.' :: (List.replicate (-position).toNat '0' ++ digits)

/-- The decimal in positional notation. -/
def positional (decimal : Decimal) : List Char :=
  if 0 ≤ decimal.exponent then
    decimal.digits ++ List.replicate decimal.exponent.toNat '0'
  else
    withPoint decimal.digits decimal.pointPosition

/-- An exponent with its sign and at least two digits. -/
def exponentText (power : Int) : List Char :=
  let digits := Nat.toDigits 10 power.natAbs
  (if power < 0 then '-' else '+') :: (if digits.length < 2 then '0' :: digits else digits)

/-- The leading digit, the others behind a point, and the power of ten. -/
def scientific (decimal : Decimal) : List Char :=
  let mantissa :=
    match decimal.digits with
    | first :: second :: rest => first :: '.' :: second :: rest
    | digits => digits
  mantissa ++ 'e' :: exponentText (decimal.pointPosition - 1)

/-- Positional with `.0` behind whole numbers while the leading digit stands for
a power of ten from -4 to 15, scientific otherwise. -/
def scaled (decimal : Decimal) : List Char :=
  let power := decimal.pointPosition - 1
  if power < -4 || 16 ≤ power then decimal.scientific
  else if 0 ≤ decimal.exponent then decimal.positional ++ ['.', '0']
  else decimal.positional

end Decimal

namespace Double

/-- A double with the digits of a finite one written by `write`. -/
def textWith (write : Decimal → List Char) : Double → String
  | .nan => "nan"
  | .infinity negative => if negative then "-inf" else "inf"
  | .finite negative significand exponent _ =>
    let digits := write (shortest significand exponent)
    String.ofList (if negative then '-' :: digits else digits)

/-- The text that programs print. -/
def positionalText : Double → String :=
  textWith Decimal.positional

/-- The text that messages show. -/
def scaledText : Double → String :=
  textWith Decimal.scaled

end Double

namespace Number

/-- The text that programs print; an integer is rounded to a double first. -/
def positionalText? (number : Number) : Option String :=
  number.toDouble?.map Double.positionalText

/-- The text that messages show; an integer keeps all its digits, however many. -/
def shownText : Number → String
  | .double x => x.scaledText
  | .integer n => (if n < 0 then "-" else "") ++ n.natAbs.repr

end Number

end Lisp
