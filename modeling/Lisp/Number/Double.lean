/-!
# Binary floating-point numbers of double width

A double is a NaN, a signed infinity, or a sign with a significand and a power
of two.  A finite double is kept in its one normal form, so two finite doubles
are the same double exactly when their three parts agree; the two zeros differ
in their sign alone.

Every operation computes the exact result in integers and rounds it once, to
the nearest double and to the even significand of two equally near ones.
Nothing here rests on machine arithmetic, so each result can be unfolded.
-/

set_option autoImplicit false

namespace Lisp

/-- The value of the leading one of 53 binary digits: `2 ^ 52`. -/
abbrev leadingBit : Nat := 0x10000000000000

/-- The least natural of more than 53 binary digits: `2 ^ 53`. -/
abbrev significandEnd : Nat := 0x20000000000000

/-- The significand and exponent of a finite double: 53 binary digits, the
leading one set unless the exponent is already the least one. -/
def IsNormal (significand : Nat) (exponent : Int) : Prop :=
  significand < significandEnd ∧ -1074 ≤ exponent ∧ exponent ≤ 971 ∧
    (leadingBit ≤ significand ∨ exponent = -1074)

instance (significand : Nat) (exponent : Int) : Decidable (IsNormal significand exponent) := by
  unfold IsNormal
  infer_instance

/-- A double; `finite` stands for `±significand * 2 ^ exponent`. -/
inductive Double where
  | nan
  | infinity (negative : Bool)
  | finite (negative : Bool) (significand : Nat) (exponent : Int)
      (normal : IsNormal significand exponent)
  deriving DecidableEq

namespace Double

/-- The zero of either sign. -/
def zero (negative : Bool) : Double :=
  .finite negative 0 (-1074) (by decide)

/-- The double one. -/
def one : Double :=
  .finite false leadingBit (-52) (by decide)

/-! ## Rounding -/

/-- The finite double with these parts; parts too large for one give infinity. -/
def ofParts (negative : Bool) (significand : Nat) (exponent : Int) : Double :=
  if normal : IsNormal significand exponent then
    .finite negative significand exponent normal
  else
    .infinity negative

/-- A natural without its last `places` binary digits, to the nearest natural that
is left, halves to the even one. -/
def roundShift (n places : Nat) : Nat :=
  let kept := n >>> places
  let twice := 2 * (n % (1 <<< places))
  let unit := 1 <<< places
  if twice < unit then kept
  else if unit < twice then kept + 1
  else kept + kept % 2

/-- The double nearest to `±significand * 2 ^ exponent`. -/
def ofBinary (negative : Bool) (significand : Nat) (exponent : Int) : Double :=
  if significand = 0 then zero negative
  else
    let target := max (-1074) (exponent + significand.log2 - 52)
    if target ≤ exponent then
      ofParts negative (significand <<< (exponent - target).toNat) target
    else
      let rounded := roundShift significand (target - exponent).toNat
      if rounded = significandEnd then ofParts negative leadingBit (target + 1)
      else ofParts negative rounded target

/-- The double nearest to `±numerator / denominator`, for a positive denominator.
The quotient is taken to 55 binary digits at least, and one more digit says
whether anything was left; that much decides every rounding. -/
def ofRatio (negative : Bool) (numerator denominator : Nat) : Double :=
  let places : Int := 55 + denominator.log2 - numerator.log2
  let scaled :=
    if 0 ≤ places then (numerator <<< places.toNat, denominator)
    else (numerator, denominator <<< (-places).toNat)
  let left := if scaled.1 % scaled.2 = 0 then 0 else 1
  ofBinary negative (2 * (scaled.1 / scaled.2) + left) (-places - 1)

/-- The double nearest to `±coefficient * 10 ^ exponent`. -/
def ofDecimal (negative : Bool) (coefficient : Nat) (exponent : Int) : Double :=
  if 0 ≤ exponent then ofBinary negative (coefficient * Nat.pow 10 exponent.toNat) 0
  else ofRatio negative coefficient (Nat.pow 10 (-exponent).toNat)

/-- The double nearest to an integer, infinite when the integer is too large. -/
def ofInt (n : Int) : Double :=
  ofBinary (n < 0) n.natAbs 0

/-! ## Signs and classes -/

/-- The double of the other sign. -/
def neg : Double → Double
  | .nan => .nan
  | .infinity negative => .infinity (!negative)
  | .finite negative significand exponent normal =>
    .finite (!negative) significand exponent normal

/-- Whether the double is one of the zeros. -/
def isZero : Double → Bool
  | .finite _ significand _ _ => significand == 0
  | _ => false

/-! ## Exact values -/

/-- `±significand * 2 ^ exponent` as a count of units `2 ^ unit`, for a unit no
larger than `2 ^ exponent`. -/
def countUnits (negative : Bool) (significand : Nat) (exponent unit : Int) : Int :=
  let count : Int := (significand <<< (exponent - unit).toNat : Nat)
  if negative then -count else count

/-- The finer of the units of two finite doubles; a zero counts nothing in any
unit, so it leaves the choice to the other. -/
def commonUnit (significand : Nat) (exponent : Int) (significand' : Nat) (exponent' : Int) : Int :=
  if significand = 0 then exponent'
  else if significand' = 0 then exponent
  else min exponent exponent'

/-! ## Arithmetic -/

/-- Whether the sign of a product or quotient of these signs is negative. -/
def signOfProduct (left right : Bool) : Bool :=
  left != right

/-- The sum, rounded once.  A sum that is exactly zero is negative only when
both terms are. -/
def add : Double → Double → Double
  | .nan, _ => .nan
  | _, .nan => .nan
  | .infinity left, .infinity right => if left = right then .infinity left else .nan
  | .infinity left, .finite .. => .infinity left
  | .finite .., .infinity right => .infinity right
  | .finite left significand exponent _, .finite right significand' exponent' _ =>
    let unit := commonUnit significand exponent significand' exponent'
    let total := countUnits left significand exponent unit + countUnits right significand' exponent' unit
    if total = 0 then zero (left && right)
    else ofBinary (total < 0) total.natAbs unit

/-- The difference: the sum with the second term negated. -/
def sub (left right : Double) : Double :=
  left.add right.neg

/-- The product, rounded once; zero times infinity has no value. -/
def mul : Double → Double → Double
  | .nan, _ => .nan
  | _, .nan => .nan
  | .infinity left, .infinity right => .infinity (signOfProduct left right)
  | .infinity left, .finite right significand _ _ =>
    if significand = 0 then .nan else .infinity (signOfProduct left right)
  | .finite left significand _ _, .infinity right =>
    if significand = 0 then .nan else .infinity (signOfProduct left right)
  | .finite left significand exponent _, .finite right significand' exponent' _ =>
    ofBinary (signOfProduct left right) (significand * significand') (exponent + exponent')

/-- The quotient, rounded once.  A nonzero number over zero is infinite; zero
over zero and infinity over infinity have no value. -/
def div : Double → Double → Double
  | .nan, _ => .nan
  | _, .nan => .nan
  | .infinity _, .infinity _ => .nan
  | .infinity left, .finite right .. => .infinity (signOfProduct left right)
  | .finite left .., .infinity right => zero (signOfProduct left right)
  | .finite left significand exponent _, .finite right significand' exponent' _ =>
    let negative := signOfProduct left right
    if significand' = 0 then
      if significand = 0 then .nan else .infinity negative
    else
      let difference := exponent - exponent'
      if 0 ≤ difference then ofRatio negative (significand <<< difference.toNat) significand'
      else ofRatio negative significand (significand' <<< (-difference).toNat)

/-! ## The 64-bit layout -/

/-- The value of the highest of 64 bits: `2 ^ 63`. -/
abbrev signBit : Nat := 0x8000000000000000

/-- The double that a 64-bit pattern stands for: a sign bit, eleven exponent
bits, 52 fraction bits. -/
def ofBits (bits : UInt64) : Double :=
  let word : Nat := bits.toNat
  let negative := decide (signBit ≤ word)
  let field : Nat := word / leadingBit % 2048
  let fraction : Nat := word % leadingBit
  if field = 2047 then
    if fraction = 0 then .infinity negative else .nan
  else if field = 0 then ofParts negative fraction (-1074)
  else ofParts negative (leadingBit + fraction) ((field : Int) - 1075)

/-- The 64-bit pattern of a double; every NaN has the same quiet pattern. -/
def toBits : Double → UInt64
  | .nan => 0x7ff8000000000000
  | .infinity negative => if negative then 0xfff0000000000000 else 0x7ff0000000000000
  | .finite negative significand exponent _ =>
    let sign := if negative then signBit else 0
    let rest :=
      if significand < leadingBit then significand
      else (exponent + 1075).toNat * leadingBit + (significand - leadingBit)
    (sign + rest).toUInt64

end Double

end Lisp
