import Lisp.Proofs.Number.Exact
import Lisp.Proofs.Number.Nearest

/-!
# Arithmetic is exact, and rounded once

The sum, the difference, the product and the quotient of finite doubles are the exact rational
results, each rounded once (`Double.rounded`) to the nearest double
(`Double.isNearest_of_rounded`), or to an infinity if it is too large.  A result that is exactly
zero keeps a sign: that of the factors, or of both terms if they agree.

Infinities are results of their own.  What has no result at all is NaN: infinities that cancel,
zero times infinity, zero over zero and infinity over infinity, and whatever has a NaN in it.  A
number other than zero over a zero is infinite, with the sign of both.

One theorem says this of each operation (`Double.add_eq`, `Double.sub_eq`, `Double.mul_eq`,
`Double.div_eq`).
-/

set_option autoImplicit false

namespace Lisp

/-! ## Signs and values -/

/-- Plus or minus one. -/
def signOf (negative : Bool) : ℚ :=
  if negative then -1 else 1

theorem binaryValue_eq (negative : Bool) (significand : ℕ) (exponent : ℤ) :
    binaryValue negative significand exponent = signOf negative * (significand * 2 ^ exponent) :=
  rfl

theorem signOf_signOfProduct (left right : Bool) :
    signOf (Double.signOfProduct left right) = signOf left * signOf right := by
  cases left <;> cases right <;> norm_num [signOf, Double.signOfProduct]

@[simp]
theorem signOf_inv (negative : Bool) : (signOf negative)⁻¹ = signOf negative := by
  cases negative <;> norm_num [signOf]

namespace Double

/-- The rational number that a finite double is. -/
def value? : Double → Option ℚ
  | .finite negative significand exponent _ => some (binaryValue negative significand exponent)
  | _ => none

theorem exists_finite_of_value? {x : Double} {q : ℚ} (value : x.value? = some q) :
    ∃ negative significand exponent normal,
      x = .finite negative significand exponent normal ∧
        binaryValue negative significand exponent = q := by
  cases x with
  | nan => cases value
  | infinity negative => cases value
  | finite negative significand exponent normal =>
    exact ⟨negative, significand, exponent, normal, rfl, Option.some.inj value⟩

/-- Whether the sign of a double is negative; a NaN has none. -/
def isNegative : Double → Bool
  | .nan => false
  | .infinity negative => negative
  | .finite negative _ _ _ => negative

/-- Whether the double is one of the infinities. -/
def isInfinite : Double → Bool
  | .infinity _ => true
  | _ => false

/-- The nearest double to a rational number; zero has the sign that is given. -/
def rounded (negativeZero : Bool) (q : ℚ) : Double :=
  if q = 0 then zero negativeZero else nearest (decide (q < 0)) |q|

/-- The sign of zero matters to zero alone. -/
theorem rounded_of_ne_zero {q : ℚ} (nonzero : q ≠ 0) (negativeZero negativeZero' : Bool) :
    rounded negativeZero q = rounded negativeZero' q := by
  rw [rounded, rounded, if_neg nonzero, if_neg nonzero]

theorem ofParts_ne_nan (negative : Bool) (significand : ℕ) (exponent : ℤ) :
    ofParts negative significand exponent ≠ .nan := by
  unfold ofParts
  split <;> simp

theorem rounded_ne_nan (negativeZero : Bool) (q : ℚ) : rounded negativeZero q ≠ .nan := by
  unfold rounded
  split
  · simp [zero]
  · simp only [nearest]
    split <;> exact ofParts_ne_nan _ _ _

/-- **What a number is rounded to has its sign, and no double is nearer.** -/
theorem isNearest_of_rounded {negativeZero sign : Bool} {q : ℚ} (nonzero : q ≠ 0)
    {significand : ℕ} {exponent : ℤ} {normal : IsNormal significand exponent}
    (rounds : rounded negativeZero q = .finite sign significand exponent normal) :
    sign = decide (q < 0) ∧ IsNearest |q| significand exponent := by
  rw [rounded, if_neg nonzero] at rounds
  exact ⟨(eq_count_of_nearest rounds).1, isNearest_of_nearest (abs_pos.2 nonzero) rounds⟩

/-- Only what is too large for a double is rounded to an infinity. -/
theorem rounded_eq_infinity_iff {q : ℚ} (nonzero : q ≠ 0) (negativeZero : Bool) :
    rounded negativeZero q = .infinity (decide (q < 0)) ↔
      (2 ^ 53 - 1 / 2) * 2 ^ (971 : ℤ) ≤ |q| := by
  rw [rounded, if_neg nonzero]
  exact nearest_eq_infinity_iff _ (abs_pos.2 nonzero)

/-- A sign and a magnitude are rounded as the number that they make. -/
theorem nearest_eq_rounded (negative : Bool) {q : ℚ} (positive : 0 < q) :
    nearest negative q = rounded negative (signOf negative * q) := by
  cases negative with
  | false => simp [rounded, signOf, positive.ne', not_lt.2 positive.le, abs_of_pos positive]
  | true => simp [rounded, signOf, positive.ne', positive, abs_of_pos positive]

theorem ofBinary_eq_rounded (negative : Bool) (significand : ℕ) (exponent : ℤ) :
    ofBinary negative significand exponent =
      rounded negative (binaryValue negative significand exponent) := by
  by_cases nonzero : significand = 0
  · subst nonzero
    simp [rounded, binaryValue]
  · have positive : (0 : ℚ) < significand * 2 ^ exponent :=
      mul_pos (by exact_mod_cast Nat.pos_of_ne_zero nonzero) (zpow_pos two_pos _)
    rw [ofBinary_eq_nearest negative nonzero, nearest_eq_rounded negative positive, binaryValue_eq]

theorem ofRatio_eq_rounded (negative : Bool) (numerator : ℕ) {denominator : ℕ}
    (nonzero : denominator ≠ 0) :
    ofRatio negative numerator denominator =
      rounded negative (signOf negative * (numerator / denominator)) := by
  by_cases isZero : numerator = 0
  · subst isZero
    simp [rounded]
  · have positive : (0 : ℚ) < numerator / denominator :=
      div_pos (by exact_mod_cast Nat.pos_of_ne_zero isZero)
        (by exact_mod_cast Nat.pos_of_ne_zero nonzero)
    rw [ofRatio_eq_nearest negative isZero nonzero, nearest_eq_rounded negative positive]

/-! ## Finite operands -/

section Finite

variable {left right : Bool} {significand significand' : ℕ} {exponent exponent' : ℤ}
variable (normal : IsNormal significand exponent) (normal' : IsNormal significand' exponent')

theorem add_finite :
    add (.finite left significand exponent normal) (.finite right significand' exponent' normal') =
      rounded (left && right) (binaryValue left significand exponent +
        binaryValue right significand' exponent') := by
  have fine := commonUnit_left significand significand' exponent exponent'
  have fine' := commonUnit_right significand significand' exponent exponent'
  simp only [add]
  generalize commonUnit significand exponent significand' exponent' = unit at fine fine'
  rw [← countUnits_mul left significand exponent unit fine,
    ← countUnits_mul right significand' exponent' unit fine', ← add_mul, ← Int.cast_add]
  generalize countUnits left significand exponent unit +
    countUnits right significand' exponent' unit = total
  have positive : (0 : ℚ) < 2 ^ unit := zpow_pos two_pos unit
  by_cases cancels : total = 0
  · subst cancels
    simp [rounded]
  · have value : binaryValue (decide (total < 0)) total.natAbs unit = total * 2 ^ unit := by
      rw [← Number.binaryValue_natAbs total, binaryValue, binaryValue, zpow_zero, mul_one, mul_assoc]
    have nonzero : (total : ℚ) * 2 ^ unit ≠ 0 :=
      mul_ne_zero (by exact_mod_cast cancels) (zpow_pos two_pos unit).ne'
    rw [if_neg cancels, ofBinary_eq_rounded, value, rounded_of_ne_zero nonzero]

theorem mul_finite :
    mul (.finite left significand exponent normal) (.finite right significand' exponent' normal') =
      rounded (signOfProduct left right) (binaryValue left significand exponent *
        binaryValue right significand' exponent') := by
  rw [mul, ofBinary_eq_rounded]
  simp only [binaryValue_eq, signOf_signOfProduct, zpow_add₀ (two_ne_zero (α := ℚ))]
  push_cast
  congr 1
  ring

theorem div_finite (nonzero : significand' ≠ 0) :
    div (.finite left significand exponent normal) (.finite right significand' exponent' normal') =
      rounded (signOfProduct left right) (binaryValue left significand exponent /
        binaryValue right significand' exponent') := by
  have quotient : binaryValue left significand exponent / binaryValue right significand' exponent' =
      signOf (signOfProduct left right) * (significand / significand' * 2 ^ (exponent - exponent')) := by
    rw [binaryValue_eq, binaryValue_eq, signOf_signOfProduct, zpow_sub₀ two_ne_zero, mul_div_mul_comm,
      div_eq_mul_inv (signOf left), signOf_inv, mul_div_mul_comm]
  rw [quotient, div, if_neg nonzero]
  generalize exponent - exponent' = difference
  dsimp only
  split
  · next raised =>
    obtain ⟨places, rfl⟩ := Int.eq_ofNat_of_zero_le raised
    rw [ofRatio_eq_rounded _ _ nonzero, Int.toNat_natCast, Nat.shiftLeft_eq, zpow_natCast]
    push_cast
    congr 2
    ring
  · next lowered =>
    obtain ⟨places, rfl⟩ : ∃ places : ℕ, difference = -places := ⟨(-difference).toNat, by omega⟩
    rw [neg_neg, Int.toNat_natCast, ofRatio_eq_rounded _ _ (by simp [Nat.shiftLeft_eq, nonzero]),
      Nat.shiftLeft_eq, zpow_neg, zpow_natCast]
    push_cast
    congr 2
    rw [div_mul_eq_div_div, div_eq_mul_inv _ ((2 : ℚ) ^ places)]

end Finite

/-! ## The operations -/

variable (x y : Double)

/-- **The sum of finite doubles is the exact one, rounded once; a sum that is exactly zero is
negative if both terms are.**  An infinity is not changed by what does not cancel it.  NaN is
the sum of opposite infinities and of NaN with anything, and no other. -/
theorem add_eq :
    (∀ q r, x.value? = some q → y.value? = some r →
      x.add y = rounded (x.isNegative && y.isNegative) (q + r)) ∧
    (∀ negative, x = .infinity negative → y ≠ .nan → y ≠ .infinity (!negative) →
      x.add y = .infinity negative ∧ y.add x = .infinity negative) ∧
    (x.add y = .nan ↔
      x = .nan ∨ y = .nan ∨ ∃ negative, x = .infinity negative ∧ y = .infinity (!negative)) := by
  refine ⟨?exact, ?infinite, ?nan⟩
  case exact =>
    intro q r isLeft isRight
    obtain ⟨left, significand, exponent, normal, rfl, rfl⟩ := exists_finite_of_value? isLeft
    obtain ⟨right, significand', exponent', normal', rfl, rfl⟩ := exists_finite_of_value? isRight
    exact add_finite normal normal'
  case infinite =>
    rintro negative rfl notNaN notOpposite
    cases y with
    | nan => exact absurd rfl notNaN
    | infinity right =>
      have same : negative = right := by
        cases negative <;> cases right <;> first | rfl | exact absurd rfl notOpposite
      simp [add, same]
    | finite right significand exponent normal => exact ⟨rfl, rfl⟩
  case nan =>
    cases x with
    | nan => simp [add]
    | infinity left =>
      cases y with
      | nan => simp [add]
      | infinity right => cases left <;> cases right <;> simp [add]
      | finite right significand exponent normal => simp [add]
    | finite left significand exponent normal =>
      cases y with
      | nan => simp [add]
      | infinity right => simp [add]
      | finite right significand' exponent' normal' =>
        simp [add_finite normal normal', rounded_ne_nan]

@[simp]
theorem value?_neg : y.neg.value? = y.value?.map (- ·) := by
  cases y with
  | nan => rfl
  | infinity negative => rfl
  | finite negative significand exponent normal =>
    simp only [neg, value?, Option.map_some, binaryValue_eq]
    cases negative <;> simp [signOf]

@[simp]
theorem neg_eq_nan_iff : y.neg = .nan ↔ y = .nan := by
  cases y <;> simp [neg]

@[simp]
theorem neg_eq_infinity_iff (negative : Bool) :
    y.neg = .infinity negative ↔ y = .infinity (!negative) := by
  cases y <;> simp [neg, Bool.not_eq_eq_eq_not]

/-- **The difference of finite doubles is the exact one, rounded once.**  It is the sum with the
second term negated, so a difference that is exactly zero is negative only if the first term is
and the second is not, and NaN is the difference of an infinity from itself. -/
theorem sub_eq :
    (∀ q r, x.value? = some q → y.value? = some r →
      x.sub y = rounded (x.isNegative && y.neg.isNegative) (q - r)) ∧
    (∀ negative, x = .infinity negative → y ≠ .nan → y ≠ .infinity negative →
      x.sub y = .infinity negative ∧ y.sub x = .infinity (!negative)) ∧
    (x.sub y = .nan ↔
      x = .nan ∨ y = .nan ∨ ∃ negative, x = .infinity negative ∧ y = .infinity negative) := by
  refine ⟨?exact, ?infinite, ?nan⟩
  case exact =>
    intro q r isLeft isRight
    rw [sub, (add_eq x y.neg).1 q (-r) isLeft (by simp [isRight]), sub_eq_add_neg]
  case infinite =>
    rintro negative rfl notNaN different
    constructor
    · refine ((add_eq _ y.neg).2.1 negative rfl ?_ ?_).1
      · simpa using notNaN
      · simpa using different
    · refine ((add_eq _ y).2.1 (!negative) rfl notNaN ?_).2
      simpa using different
  case nan =>
    rw [sub, (add_eq x y.neg).2.2]
    simp

/-- **The product of finite doubles is the exact one, rounded once; its sign is the product of
the signs.**  An infinity stays infinite by all but zero and NaN.  NaN is the product of zero
and an infinity and of NaN with anything, and no other. -/
theorem mul_eq :
    (∀ q r, x.value? = some q → y.value? = some r →
      x.mul y = rounded (signOfProduct x.isNegative y.isNegative) (q * r)) ∧
    (x.isInfinite ∨ y.isInfinite → x ≠ .nan → y ≠ .nan → ¬ x.isZero → ¬ y.isZero →
      x.mul y = .infinity (signOfProduct x.isNegative y.isNegative)) ∧
    (x.mul y = .nan ↔
      x = .nan ∨ y = .nan ∨ (x.isInfinite ∧ y.isZero) ∨ (x.isZero ∧ y.isInfinite)) := by
  refine ⟨?exact, ?infinite, ?nan⟩
  case exact =>
    intro q r isLeft isRight
    obtain ⟨left, significand, exponent, normal, rfl, rfl⟩ := exists_finite_of_value? isLeft
    obtain ⟨right, significand', exponent', normal', rfl, rfl⟩ := exists_finite_of_value? isRight
    exact mul_finite normal normal'
  case infinite =>
    intro infinite notNaN notNaN' nonzero nonzero'
    cases x <;> cases y <;> simp_all [mul, isInfinite, isZero, isNegative]
  case nan =>
    cases x with
    | nan => simp [mul]
    | infinity left => cases y <;> simp [mul, isInfinite, isZero]
    | finite left significand exponent normal =>
      cases y with
      | nan => simp [mul]
      | infinity right => simp [mul, isInfinite, isZero]
      | finite right significand' exponent' normal' =>
        simp [mul_finite normal normal', rounded_ne_nan, isInfinite]

/-- **The quotient of finite doubles is the exact one, rounded once; its sign is the product of
the signs.**  The same sign stands on the infinity that a number other than zero gives over a
zero, on the infinity that an infinity gives over a finite double, and on the zero that a finite
double gives over an infinity.  NaN is zero over zero, infinity over infinity and what has NaN
in it, and no other. -/
theorem div_eq :
    (∀ q r, x.value? = some q → y.value? = some r → r ≠ 0 →
      x.div y = rounded (signOfProduct x.isNegative y.isNegative) (q / r)) ∧
    (y.isZero → x ≠ .nan → ¬ x.isZero →
      x.div y = .infinity (signOfProduct x.isNegative y.isNegative)) ∧
    (∀ r, x.isInfinite → y.value? = some r →
      x.div y = .infinity (signOfProduct x.isNegative y.isNegative)) ∧
    (∀ q, x.value? = some q → y.isInfinite →
      x.div y = zero (signOfProduct x.isNegative y.isNegative)) ∧
    (x.div y = .nan ↔
      x = .nan ∨ y = .nan ∨ (x.isZero ∧ y.isZero) ∨ (x.isInfinite ∧ y.isInfinite)) := by
  refine ⟨?exact, ?overZero, ?infinite, ?overInfinity, ?nan⟩
  case exact =>
    intro q r isLeft isRight nonzero
    obtain ⟨left, significand, exponent, normal, rfl, rfl⟩ := exists_finite_of_value? isLeft
    obtain ⟨right, significand', exponent', normal', rfl, rfl⟩ := exists_finite_of_value? isRight
    refine div_finite normal normal' fun isZero => nonzero ?_
    simp [binaryValue, isZero]
  case overZero =>
    intro isZero notNaN nonzero
    cases x <;> cases y <;> simp_all [div, Double.isZero, isNegative]
  case infinite =>
    intro r infinite isRight
    obtain ⟨right, significand, exponent, normal, rfl, -⟩ := exists_finite_of_value? isRight
    cases x <;> simp_all [div, isInfinite, isNegative]
  case overInfinity =>
    intro q isLeft infinite
    obtain ⟨left, significand, exponent, normal, rfl, -⟩ := exists_finite_of_value? isLeft
    cases y <;> simp_all [div, isInfinite, isNegative]
  case nan =>
    cases x with
    | nan => simp [div]
    | infinity left => cases y <;> simp [div, isInfinite, isZero]
    | finite left significand exponent normal =>
      cases y with
      | nan => simp [div]
      | infinity right => simp [div, isInfinite, isZero, zero]
      | finite right significand' exponent' normal' =>
        by_cases overZero : significand' = 0
        · by_cases isZero : significand = 0 <;>
            simp [div, Double.isZero, isInfinite, overZero, isZero]
        · simp [div_finite normal normal' overZero, rounded_ne_nan, isInfinite, Double.isZero,
            overZero]

example : one.div (zero true) = .infinity true := rfl

end Double

end Lisp
