import Lisp.Number.Double

/-!
# Numbers

Programs compute with doubles.  An integer of any size is accepted wherever a
number is: it is compared exactly, and rounded to a double before any other
operation.  A rounding that would give infinity is refused, so the functions
that need one answer `none` for an integer out of range.

Comparison is exact across both kinds.  Each number but NaN has a place on the
extended line, and the comparisons ask for those places only.
-/

set_option autoImplicit false

namespace Lisp

/-- A number of the language. -/
inductive Number where
  | double (value : Double)
  | integer (value : Int)
  deriving DecidableEq

/-- A place on the line of binary fractions with an infinity at either end. -/
inductive Extended where
  | below
  | binary (negative : Bool) (significand : Nat) (exponent : Int)
  | above

namespace Extended

/-- The order of two places, by counting both in the finer of their units. -/
def compare : Extended → Extended → Ordering
  | .below, .below => .eq
  | .below, _ => .lt
  | _, .below => .gt
  | .above, .above => .eq
  | .above, _ => .gt
  | _, .above => .lt
  | .binary negative significand exponent, .binary negative' significand' exponent' =>
    let unit := Double.commonUnit significand exponent significand' exponent'
    Ord.compare (Double.countUnits negative significand exponent unit)
      (Double.countUnits negative' significand' exponent' unit)

end Extended

namespace Number

/-- The place of a number on the extended line; NaN has none. -/
def place? : Number → Option Extended
  | .double .nan => none
  | .double (.infinity true) => some .below
  | .double (.infinity false) => some .above
  | .double (.finite negative significand exponent _) => some (.binary negative significand exponent)
  | .integer n => some (.binary (n < 0) n.natAbs 0)

/-- The exact order of two numbers; none when either is NaN. -/
def compare? (left right : Number) : Option Ordering := do
  return (← left.place?).compare (← right.place?)

/-- Exact equality; NaN equals nothing. -/
def equal (left right : Number) : Bool :=
  left.compare? right == some .eq

/-- Exactly less. -/
def less (left right : Number) : Bool :=
  left.compare? right == some .lt

/-- Exactly less or equal. -/
def lessOrEqual (left right : Number) : Bool :=
  left.less right || left.equal right

/-! ## Conversion -/

/-- The double nearest to a number; none for an integer that would round to
infinity. -/
def toDouble? : Number → Option Double
  | .double x => some x
  | .integer n =>
    match Double.ofInt n with
    | .infinity _ => none
    | x => some x

/-! ## Arithmetic -/

/-- Adds numbers one after the other to a double. -/
def addAll? (total : Double) : List Number → Option Double
  | [] => some total
  | number :: rest => do addAll? (total.add (← number.toDouble?)) rest

/-- Adds the integers at the front exactly and goes on in doubles from the first
double. -/
def sumFrom? (total : Int) : List Number → Option Double
  | [] => (Number.integer total).toDouble?
  | .integer n :: rest => sumFrom? (total + n) rest
  | .double x :: rest => do addAll? ((← (Number.integer total).toDouble?).add x) rest

/-- The sum from the left; the empty sum is zero. -/
def sum? (numbers : List Number) : Option Double :=
  sumFrom? 0 numbers

/-- Multiplies numbers one after the other into a double. -/
def multiplyAll? (product : Double) : List Number → Option Double
  | [] => some product
  | number :: rest => do multiplyAll? (product.mul (← number.toDouble?)) rest

/-- The product from the left; the empty product is one. -/
def product? (numbers : List Number) : Option Double :=
  multiplyAll? .one numbers

/-- The number of the other sign, as a double. -/
def negate? : Number → Option Double
  | .double x => some x.neg
  | .integer n => (Number.integer (-n)).toDouble?

/-- Subtracts numbers one after the other from a double. -/
def subtractAll? (total : Double) : List Number → Option Double
  | [] => some total
  | number :: rest => do subtractAll? (total.sub (← number.toDouble?)) rest

/-- The first number less all the others; a lone number is negated. -/
def difference? (first : Number) : List Number → Option Double
  | [] => first.negate?
  | rest => do subtractAll? (← first.toDouble?) rest

/-- Divides a double by numbers one after the other. -/
def divideAll? (quotient : Double) : List Number → Option Double
  | [] => some quotient
  | number :: rest => do divideAll? (quotient.div (← number.toDouble?)) rest

/-- The first number divided by all the others; a lone number is inverted. -/
def quotient? (first : Number) : List Number → Option Double
  | [] => divideAll? .one [first]
  | rest => do divideAll? (← first.toDouble?) rest

end Number

end Lisp
