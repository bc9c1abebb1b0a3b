import Mathlib.Data.EReal.Basic
import Lisp.Proofs.Number.Exact

/-!
# The order of numbers

Every number but NaN is an extended real number, whatever it is kept as: an integer of any
size and a double are compared by their exact values (`Number.value?`).  Less, less or equal
and equal are the relations of the extended reals between numbers that have a value
(`Number.less_iff`, `Number.lessOrEqual_iff`, `Number.equal_iff`), so each of them is
transitive, and NaN stands in none of them to anything.

A double that is not the negative zero is the only one of its value, so an integer that is equal
to such a double is converted to that very double (`Number.toDouble?_eq_of_equal`).
-/

set_option autoImplicit false

namespace Lisp

/-- The extended real at a place on the line. -/
noncomputable def Extended.value : Extended → EReal
  | .below => ⊥
  | .binary negative significand exponent =>
    ((binaryValue negative significand exponent : ℝ) : EReal)
  | .above => ⊤

/-- Places are in the order of the extended reals that they are the places of. -/
theorem Extended.compare_eq (left right : Extended) :
    left.compare right = Ord.compare left.value right.value := by
  cases left with
  | below =>
    cases right with
    | below => simp [Extended.compare, value]
    | binary negative significand exponent =>
      exact (compare_lt_iff_lt.2 (EReal.bot_lt_coe _)).symm
    | above => exact (compare_lt_iff_lt.2 bot_lt_top).symm
  | binary negative significand exponent =>
    cases right with
    | below => exact (compare_gt_iff_gt.2 (EReal.bot_lt_coe _)).symm
    | binary negative' significand' exponent' =>
      have order := EReal.coe_strictMono.comp (Rat.cast_strictMono (K := ℝ))
      rw [compare_binary, ← cmp_eq_compare, ← cmp_eq_compare]
      exact (order.cmp_map_eq _ _).symm
    | above => exact (compare_lt_iff_lt.2 (EReal.coe_lt_top _)).symm
  | above =>
    cases right with
    | below => exact (compare_gt_iff_gt.2 bot_lt_top).symm
    | binary negative significand exponent =>
      exact (compare_gt_iff_gt.2 (EReal.coe_lt_top _)).symm
    | above => simp [Extended.compare, value]

namespace Number

/-- The extended real that a number is; NaN is none. -/
noncomputable def value? : Number → Option EReal
  | .double .nan => none
  | .double (.infinity true) => some ⊥
  | .double (.infinity false) => some ⊤
  | .double (.finite negative significand exponent _) =>
    some ((binaryValue negative significand exponent : ℝ) : EReal)
  | .integer n => some ((n : ℝ) : EReal)

/-- A number has the place of its value. -/
theorem map_value_place? (number : Number) : number.place?.map Extended.value = number.value? := by
  cases number with
  | integer n => simp [place?, value?, Extended.value, binaryValue_natAbs]
  | double x =>
    cases x with
    | nan => rfl
    | infinity negative => cases negative <;> rfl
    | finite negative significand exponent normal => rfl

/-- **Numbers compare as their values, and not at all when one is NaN.** -/
theorem compare?_eq_some_iff {left right : Number} {order : Ordering} :
    left.compare? right = some order ↔
      ∃ x y, left.value? = some x ∧ right.value? = some y ∧ Ord.compare x y = order := by
  rw [← map_value_place?, ← map_value_place?, compare?]
  cases left.place? <;> cases right.place? <;> simp [Extended.compare_eq]

theorem less_iff {left right : Number} :
    left.less right = true ↔ ∃ x y, left.value? = some x ∧ right.value? = some y ∧ x < y := by
  rw [less, beq_iff_eq, compare?_eq_some_iff]
  simp only [compare_lt_iff_lt]

theorem equal_iff {left right : Number} :
    left.equal right = true ↔ ∃ x, left.value? = some x ∧ right.value? = some x := by
  rw [equal, beq_iff_eq, compare?_eq_some_iff]
  simp only [compare_eq_iff_eq]
  constructor
  · rintro ⟨x, _, isLeft, isRight, rfl⟩
    exact ⟨x, isLeft, isRight⟩
  · rintro ⟨x, isLeft, isRight⟩
    exact ⟨x, x, isLeft, isRight, rfl⟩

theorem equal_comm (left right : Number) : left.equal right = right.equal left := by
  rw [Bool.eq_iff_iff, equal_iff, equal_iff]
  simp only [and_comm]

theorem equal_trans {first second third : Number} (same : first.equal second = true)
    (same' : second.equal third = true) : first.equal third = true := by
  obtain ⟨x, isFirst, isSecond⟩ := equal_iff.1 same
  obtain ⟨y, isSecond', isThird⟩ := equal_iff.1 same'
  obtain rfl := Option.some.inj (isSecond.symm.trans isSecond')
  exact equal_iff.2 ⟨x, isFirst, isThird⟩

theorem lessOrEqual_iff {left right : Number} :
    left.lessOrEqual right = true ↔
      ∃ x y, left.value? = some x ∧ right.value? = some y ∧ x ≤ y := by
  rw [lessOrEqual, Bool.or_eq_true, less_iff, equal_iff]
  constructor
  · rintro (⟨x, y, isLeft, isRight, less⟩ | ⟨x, isLeft, isRight⟩)
    · exact ⟨x, y, isLeft, isRight, less.le⟩
    · exact ⟨x, x, isLeft, isRight, le_rfl⟩
  · rintro ⟨x, y, isLeft, isRight, atMost⟩
    rcases atMost.lt_or_eq with less | rfl
    · exact .inl ⟨x, y, isLeft, isRight, less⟩
    · exact .inr ⟨x, isLeft, isRight⟩

end Number

/-! ## Numbers of one value -/

namespace Double

/-- A finite double without a significand is a zero. -/
theorem finite_zero (negative : Bool) {exponent : ℤ} (normal : IsNormal 0 exponent) :
    finite negative 0 exponent normal = zero negative := by
  obtain rfl : exponent = -1074 := normal.2.2.2.resolve_left (by decide)
  rfl

variable {negative negative' : Bool} {significand significand' : ℕ} {exponent exponent' : ℤ}

/-- **Finite doubles of one value are one double, but for the sign of zero.** -/
theorem finite_eq_of_binaryValue_eq (normal : IsNormal significand exponent)
    (normal' : IsNormal significand' exponent') (nonzero : significand ≠ 0)
    (same : binaryValue negative significand exponent =
      binaryValue negative' significand' exponent') :
    finite negative significand exponent normal =
      finite negative' significand' exponent' normal' := by
  have magnitude : (significand : ℚ) * 2 ^ exponent = significand' * 2 ^ exponent' := by
    rw [← abs_binaryValue negative, ← abs_binaryValue negative', same]
  have positive : (0 : ℚ) < significand * 2 ^ exponent :=
    mul_pos (by exact_mod_cast Nat.pos_of_ne_zero nonzero) (zpow_pos two_pos _)
  have nonzero' : significand' ≠ 0 := by
    rintro rfl
    rw [Nat.cast_zero, zero_mul] at magnitude
    exact positive.ne' magnitude
  have sameSign : negative = negative' := by
    rw [binaryValue, binaryValue, ← magnitude] at same
    have signs := mul_right_cancel₀ positive.ne' same
    cases negative <;> cases negative' <;> first | rfl | norm_num at signs
  rw [← nearest_of_normal negative normal nonzero, ← nearest_of_normal negative' normal' nonzero',
    magnitude, sameSign]

/-- Finite doubles of one value are one double, if neither is the negative zero. -/
theorem finite_eq_of_not_negative_zero {normal : IsNormal significand exponent}
    {normal' : IsNormal significand' exponent'}
    (notNegative : finite negative significand exponent normal ≠ zero true)
    (notNegative' : finite negative' significand' exponent' normal' ≠ zero true)
    (same : binaryValue negative significand exponent =
      binaryValue negative' significand' exponent') :
    finite negative significand exponent normal =
      finite negative' significand' exponent' normal' := by
  by_cases nonzero : significand = 0
  · subst nonzero
    have magnitude : (significand' : ℚ) * 2 ^ exponent' = 0 := by
      rw [← abs_binaryValue negative', ← same, abs_binaryValue, Nat.cast_zero, zero_mul]
    obtain rfl : significand' = 0 := by
      have unit : (2 : ℚ) ^ exponent' ≠ 0 := (zpow_pos two_pos _).ne'
      exact_mod_cast (mul_eq_zero.1 magnitude).resolve_right unit
    rw [finite_zero] at notNegative notNegative' ⊢
    rw [finite_zero]
    cases negative with
    | true => exact absurd rfl notNegative
    | false =>
      cases negative' with
      | true => exact absurd rfl notNegative'
      | false => rfl
  · exact finite_eq_of_binaryValue_eq normal normal' nonzero same

end Double

namespace Number

/-- Doubles that are equal are one double, unless one is the negative zero. -/
theorem eq_of_equal_doubles {x y : Double} (notNegative : x ≠ .zero true)
    (notNegative' : y ≠ .zero true) (same : equal (.double x) (.double y) = true) : x = y := by
  cases x with
  | nan => cases same
  | infinity negative =>
    cases y with
    | nan => cases negative <;> cases same
    | infinity negative' => cases negative <;> cases negative' <;> first | rfl | cases same
    | finite negative' significand' exponent' normal' => cases negative <;> cases same
  | finite negative significand exponent normal =>
    cases y with
    | nan => cases same
    | infinity negative' => cases negative' <;> cases same
    | finite negative' significand' exponent' normal' =>
      obtain ⟨value, isLeft, isRight⟩ := equal_iff.1 same
      rw [value?, Option.some.injEq] at isLeft isRight
      rw [← isRight, EReal.coe_eq_coe_iff, Rat.cast_inj] at isLeft
      exact Double.finite_eq_of_not_negative_zero notNegative notNegative' isLeft

/-- An integer that equals a double other than the negative zero is converted to it. -/
theorem toDouble?_of_equal_double {n : ℤ} {x : Double} (notNegative : x ≠ .zero true)
    (same : equal (.integer n) (.double x) = true) : toDouble? (.integer n) = some x := by
  obtain ⟨negative, significand, exponent, normal, rfl, value⟩ :=
    (equal_integer_double n x).1 same
  obtain ⟨negative', significand', exponent', normal', converted, value'⟩ :=
    toDouble?_integer ⟨negative, significand, exponent, normal, value⟩
  rw [converted, Option.some.injEq]
  refine Double.finite_eq_of_not_negative_zero ?_ notNegative (value'.symm.trans value)
  -- Only zero is converted to a zero, and that has no sign.
  intro isZero
  cases isZero
  obtain rfl : n = 0 := by
    simpa [binaryValue] using value'
  cases converted

/-- **Numbers that are equal are converted to one double, unless one is the negative zero.** -/
theorem toDouble?_eq_of_equal {left right : Number} (notNegative : left ≠ .double (.zero true))
    (notNegative' : right ≠ .double (.zero true)) (same : left.equal right = true) :
    left.toDouble? = right.toDouble? := by
  cases left with
  | double x =>
    cases right with
    | double y =>
      rw [eq_of_equal_doubles (fun isZero => notNegative (congrArg _ isZero))
        (fun isZero => notNegative' (congrArg _ isZero)) same]
    | integer m =>
      rw [equal_comm] at same
      exact (toDouble?_of_equal_double (fun isZero => notNegative (congrArg _ isZero)) same).symm
  | integer n =>
    cases right with
    | double y =>
      exact toDouble?_of_equal_double (fun isZero => notNegative' (congrArg _ isZero)) same
    | integer m =>
      obtain ⟨x, isLeft, isRight⟩ := equal_iff.1 same
      rw [value?, Option.some.injEq] at isLeft isRight
      rw [← isRight, EReal.coe_eq_coe_iff, Int.cast_inj] at isLeft
      rw [isLeft]

end Number

end Lisp
