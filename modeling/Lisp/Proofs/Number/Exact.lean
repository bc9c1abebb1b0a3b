import Mathlib.Order.Compare
import Lisp.Number.Basic
import Lisp.Proofs.Number.Shortest

/-!
# Exact comparison, and integers that are doubles

Two places on the line of binary fractions compare as the rational numbers that
they stand for (`Extended.compare_binary`): the unit in which both are counted is
fine enough for either.

An integer that some finite double equals exactly is converted to that double,
and no other integer equals a double at all (`Number.equal_integer_double`).
-/

set_option autoImplicit false

namespace Lisp

/-- The rational number `±significand * 2 ^ exponent`. -/
def binaryValue (negative : Bool) (significand : ℕ) (exponent : ℤ) : ℚ :=
  (if negative then -1 else 1) * (significand * 2 ^ exponent)

/-- The magnitude is the value without its sign. -/
theorem abs_binaryValue (negative : Bool) (significand : ℕ) (exponent : ℤ) :
    |binaryValue negative significand exponent| = significand * 2 ^ exponent := by
  have unit : (0 : ℚ) ≤ significand * 2 ^ exponent :=
    mul_nonneg (Nat.cast_nonneg _) (zpow_pos two_pos _).le
  rw [binaryValue, abs_mul, abs_of_nonneg unit]
  cases negative <;> simp

namespace Double

/-- Counting in a unit that is fine enough loses nothing. -/
theorem countUnits_mul (negative : Bool) (significand : ℕ) (exponent unit : ℤ)
    (fine : significand = 0 ∨ unit ≤ exponent) :
    (countUnits negative significand exponent unit : ℚ) * 2 ^ unit =
      binaryValue negative significand exponent := by
  have magnitude : ((significand <<< (exponent - unit).toNat : ℕ) : ℚ) * 2 ^ unit =
      significand * 2 ^ exponent := by
    rcases fine with rfl | fine
    · simp
    · obtain ⟨places, rfl⟩ := Int.le.dest fine
      rw [show (unit + places - unit).toNat = places by omega, Nat.shiftLeft_eq,
        zpow_add₀ two_ne_zero, zpow_natCast]
      push_cast
      ring
  unfold countUnits binaryValue
  cases negative
  · rw [if_neg Bool.false_ne_true, if_neg Bool.false_ne_true, Int.cast_natCast, magnitude, one_mul]
  · rw [if_pos rfl, if_pos rfl, Int.cast_neg, Int.cast_natCast, neg_mul, neg_mul, magnitude,
      one_mul]

theorem commonUnit_left (significand significand' : ℕ) (exponent exponent' : ℤ) :
    significand = 0 ∨ commonUnit significand exponent significand' exponent' ≤ exponent := by
  unfold commonUnit
  split
  · exact .inl ‹_›
  · split <;> simp

theorem commonUnit_right (significand significand' : ℕ) (exponent exponent' : ℤ) :
    significand' = 0 ∨ commonUnit significand exponent significand' exponent' ≤ exponent' := by
  unfold commonUnit
  split
  · simp
  · split
    · exact .inl ‹_›
    · simp

end Double

/-- Counts of one positive unit compare as the numbers that they count. -/
theorem compare_mul_of_pos {unit : ℚ} (positive : 0 < unit) (left right : ℤ) :
    compare ((left : ℚ) * unit) (right * unit) = compare left right := by
  rcases lt_trichotomy left right with less | rfl | greater
  · rw [compare_lt_iff_lt.2 less, compare_lt_iff_lt]
    gcongr
  · simp
  · rw [compare_gt_iff_gt.2 greater, compare_gt_iff_gt]
    have : (right : ℚ) < left := by exact_mod_cast greater
    exact mul_lt_mul_of_pos_right this positive

/-- **Places on the line compare as the rational numbers that they stand for.** -/
theorem Extended.compare_binary (negative negative' : Bool) (significand significand' : ℕ)
    (exponent exponent' : ℤ) :
    Extended.compare (.binary negative significand exponent)
        (.binary negative' significand' exponent') =
      Ord.compare (binaryValue negative significand exponent)
        (binaryValue negative' significand' exponent') := by
  simp only [Extended.compare]
  rw [← Double.countUnits_mul negative significand exponent _
      (Double.commonUnit_left significand significand' exponent exponent'),
    ← Double.countUnits_mul negative' significand' exponent' _
      (Double.commonUnit_right significand significand' exponent exponent'),
    compare_mul_of_pos (zpow_pos two_pos _)]

namespace Number

/-- Whether a number is a finite double, or an integer that is exactly one. -/
def IsFiniteDouble : Number → Prop
  | .double x => ∃ negative significand exponent normal,
      x = .finite negative significand exponent normal
  | .integer n => ∃ negative significand exponent,
      IsNormal significand exponent ∧ (n : ℚ) = binaryValue negative significand exponent

/-- A finite double equals itself. -/
theorem equal_finite_self (negative : Bool) (significand : ℕ) (exponent : ℤ)
    (normal : IsNormal significand exponent) :
    equal (.double (.finite negative significand exponent normal))
      (.double (.finite negative significand exponent normal)) = true := by
  simp [equal, compare?, place?, Extended.compare_binary]

/-- An integer stands at its own place. -/
theorem binaryValue_natAbs (n : ℤ) : binaryValue (decide (n < 0)) n.natAbs 0 = n := by
  have magnitude : (n.natAbs : ℚ) = |(n : ℚ)| := by rw [Nat.cast_natAbs, Int.cast_abs]
  rcases lt_or_ge n 0 with negative | positive
  · have : (n : ℚ) < 0 := by exact_mod_cast negative
    simp [binaryValue, negative, magnitude, abs_of_neg this]
  · have : (0 : ℚ) ≤ n := by exact_mod_cast positive
    simp [binaryValue, not_lt.2 positive, magnitude, abs_of_nonneg this]

/-- **An integer equals a double just when that is finite and of the same value.** -/
theorem equal_integer_double (n : ℤ) (x : Double) :
    equal (.integer n) (.double x) = true ↔
      ∃ negative significand exponent normal,
        x = .finite negative significand exponent normal ∧
          (n : ℚ) = binaryValue negative significand exponent := by
  cases x with
  | nan => simp [equal, compare?, place?]
  | infinity negative => cases negative <;> simp [equal, compare?, place?, Extended.compare]
  | finite negative significand exponent normal =>
    have : equal (.integer n) (.double (.finite negative significand exponent normal)) = true ↔
        (n : ℚ) = binaryValue negative significand exponent := by
      simp [equal, compare?, place?, Extended.compare_binary, binaryValue_natAbs]
    rw [this]
    constructor
    · intro same
      exact ⟨negative, significand, exponent, normal, rfl, same⟩
    · rintro ⟨_, _, _, _, same_parts, same⟩
      cases same_parts
      exact same

/-- An integer that is a finite double is converted to a double that equals it. -/
theorem toDouble?_integer {n : ℤ} (exact : (Number.integer n).IsFiniteDouble) :
    ∃ negative significand exponent normal,
      toDouble? (.integer n) = some (.finite negative significand exponent normal) ∧
        (n : ℚ) = binaryValue negative significand exponent := by
  obtain ⟨negative, significand, exponent, normal, same⟩ := exact
  by_cases zero : n = 0
  · subst zero
    exact ⟨false, 0, -1074, by decide, by decide, by simp [binaryValue]⟩
  have magnitude : ((n.natAbs : ℕ) : ℚ) * 2 ^ (0 : ℤ) = significand * 2 ^ exponent := by
    rw [zpow_zero, mul_one, Nat.cast_natAbs, Int.cast_abs, same, abs_binaryValue]
  have nonzero : significand ≠ 0 := by
    rintro rfl
    simp [zero] at magnitude
  refine ⟨decide (n < 0), significand, exponent, normal, ?_, ?_⟩
  · simp only [toDouble?, Double.ofInt]
    rw [Double.ofBinary_eq_nearest _ (by omega), magnitude,
      Double.nearest_of_normal _ normal nonzero]
  · rw [binaryValue, ← magnitude]
    exact (binaryValue_natAbs n).symm

end Number

end Lisp
