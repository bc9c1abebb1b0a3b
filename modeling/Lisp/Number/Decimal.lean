import Lisp.Number.Double

/-!
# Shortest decimals

A decimal is a natural coefficient with a power of ten.  `Double.shortest`
gives the decimal with the fewest digits that rounds to a finite double; among
several with that many digits it takes the nearest, and of two equally near
ones the one whose last digit is even.

For each number of digits only the two neighbours of the double on that decimal
grid have to be tried: if any point of the grid rounds to the double, one of
its neighbours does.  That the answer reads back is checked, not assumed; the
exact decimal expansion stands by if no short one is found.
-/

set_option autoImplicit false

namespace Lisp

/-- The number `coefficient * 10 ^ exponent`. -/
structure Decimal where
  coefficient : Nat
  exponent : Int
  deriving DecidableEq, Repr

namespace Decimal

/-- The same number with no zero at the end of its coefficient. -/
def trim (coefficient : Nat) (exponent : Int) : Decimal :=
  if coefficient = 0 then ⟨0, 0⟩
  else if coefficient % 10 = 0 then trim (coefficient / 10) (exponent + 1)
  else ⟨coefficient, exponent⟩
termination_by coefficient
decreasing_by omega

/-- The digits of the coefficient, most significant first. -/
def digits (decimal : Decimal) : List Char :=
  Nat.toDigits 10 decimal.coefficient

/-- How many digits stand before the point, counted below zero for zeros that
follow it. -/
def pointPosition (decimal : Decimal) : Int :=
  (decimal.digits.length : Int) + decimal.exponent

end Decimal

namespace Double

/-- The magnitude of a finite double as a fraction of naturals. -/
def magnitude (significand : Nat) (exponent : Int) : Nat × Nat :=
  if 0 ≤ exponent then (significand <<< exponent.toNat, 1)
  else (significand, 1 <<< (-exponent).toNat)

/-- A fraction that stands for `ratio` in units of `10 ^ unit`. -/
def inDecimalUnits (ratio : Nat × Nat) (unit : Int) : Nat × Nat :=
  if 0 ≤ unit then (ratio.1, ratio.2 * Nat.pow 10 unit.toNat)
  else (ratio.1 * Nat.pow 10 (-unit).toNat, ratio.2)

/-- Whether `10 ^ power` is at most the fraction. -/
def reachesPower (ratio : Nat × Nat) (power : Int) : Bool :=
  let scaled := inDecimalUnits ratio power
  decide (scaled.2 ≤ scaled.1)

/-- The power of ten of the leading digit of a positive fraction.  The binary
logarithm times 1233/4096, which is the decimal one to three places, misses by
at most one. -/
def leadingPower (ratio : Nat × Nat) : Int :=
  let estimate := (((ratio.1.log2 : Int) - ratio.2.log2) * 1233).fdiv 4096
  if reachesPower ratio (estimate + 1) then estimate + 1
  else if reachesPower ratio estimate then estimate
  else estimate - 1

/-- The decimal on the grid of `10 ^ unit` that is nearest to the double among
those that round to it. -/
def onGrid? (significand : Nat) (exponent unit : Int) : Option Decimal :=
  let scaled := inDecimalUnits (magnitude significand exponent) unit
  let lower := scaled.1 / scaled.2
  let twice := 2 * (scaled.1 % scaled.2)
  let returns (coefficient : Nat) : Bool :=
    decide (ofDecimal false coefficient unit = ofParts false significand exponent)
  let lowerFirst :=
    decide (twice < scaled.2) || (decide (twice = scaled.2) && decide (lower % 2 = 0))
  let near := if lowerFirst then lower else lower + 1
  let far := if lowerFirst then lower + 1 else lower
  if returns near then some (.trim near unit)
  else if returns far then some (.trim far unit)
  else none

/-- All digits of a finite double. -/
def expansion (significand : Nat) (exponent : Int) : Decimal :=
  if 0 ≤ exponent then .trim (significand <<< exponent.toNat) 0
  else .trim (significand * Nat.pow 5 (-exponent).toNat) exponent

/-- The shortest decimal that rounds to the positive double of these parts.
Seventeen digits always suffice. -/
def shortest (significand : Nat) (exponent : Int) : Decimal :=
  if significand = 0 then ⟨0, 0⟩
  else
    let leading := leadingPower (magnitude significand exponent)
    ((List.range 17).findSome? fun extra : Nat =>
      onGrid? significand exponent (leading - extra)).getD (expansion significand exponent)

end Double

end Lisp
