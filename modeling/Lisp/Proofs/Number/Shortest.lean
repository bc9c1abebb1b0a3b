import Lisp.Number.Decimal
import Lisp.Proofs.Number.Rounding

/-!
# Shortest decimals read back

The decimal chosen for a finite double rounds to that double again, with either
sign (`ofDecimal_shortest`).  A candidate is only ever taken when it does, and a
decimal rounds by its value alone, so dropping zeros at its end changes nothing.
Should no candidate be taken, all digits of the double are, and these denote it.
-/

set_option autoImplicit false

namespace Lisp

/-! ## The value of a decimal -/

namespace Decimal

/-- The rational number that a decimal denotes. -/
def value (decimal : Decimal) : ℚ :=
  decimal.coefficient * 10 ^ decimal.exponent

/-- Zeros dropped at the end of a coefficient are made up for by the exponent. -/
@[simp]
theorem value_trim (coefficient : ℕ) (exponent : ℤ) :
    (trim coefficient exponent).value = coefficient * 10 ^ exponent := by
  fun_induction trim coefficient exponent with
  | case1 exponent => simp [value]
  | case2 coefficient exponent _ whole ih =>
    have tenfold : coefficient = 10 * (coefficient / 10) := by omega
    rw [ih, zpow_add_one₀ (by norm_num)]
    conv_rhs => rw [tenfold]
    push_cast
    ring
  | case3 => rfl

end Decimal

namespace Double

/-! ## Decimals are rounded by their value -/

@[simp]
theorem ofBinary_zero (negative : Bool) (exponent : ℤ) :
    ofBinary negative 0 exponent = zero negative := by
  simp [ofBinary]

@[simp]
theorem ofRatio_zero (negative : Bool) (denominator : ℕ) :
    ofRatio negative 0 denominator = zero negative := by
  simp only [ofRatio]
  split <;> simp

@[simp]
theorem ofDecimal_zero (negative : Bool) (exponent : ℤ) :
    ofDecimal negative 0 exponent = zero negative := by
  simp [ofDecimal]

theorem ofDecimal_eq_nearest (negative : Bool) {coefficient : ℕ} (nonzero : coefficient ≠ 0)
    (exponent : ℤ) :
    ofDecimal negative coefficient exponent = nearest negative (coefficient * 10 ^ exponent) := by
  unfold ofDecimal
  split
  · next whole =>
    obtain ⟨power, rfl⟩ := Int.eq_ofNat_of_zero_le whole
    have product : coefficient * 10 ^ power ≠ 0 := by positivity
    rw [Int.toNat_natCast, Nat.pow_eq, ofBinary_eq_nearest negative product]
    simp
  · next fraction =>
    obtain ⟨power, rfl⟩ : ∃ power : ℕ, exponent = -power := ⟨(-exponent).toNat, by omega⟩
    rw [neg_neg, Int.toNat_natCast, Nat.pow_eq,
      ofRatio_eq_nearest negative nonzero (by positivity)]
    congr 1
    push_cast
    rw [zpow_neg, zpow_natCast, div_eq_mul_inv]

theorem ofParts_eq_finite {negative sign : Bool} {count significand : ℕ} {unit exponent : ℤ}
    {normal : IsNormal significand exponent}
    (parts : ofParts negative count unit = .finite negative significand exponent normal) :
    ofParts sign count unit = .finite sign significand exponent normal := by
  unfold ofParts at parts ⊢
  split at parts
  · cases parts
    rw [dif_pos normal]
  · cases parts

/-- The sign takes no part in rounding. -/
theorem nearest_eq_finite {negative sign : Bool} {q : ℚ} {significand : ℕ} {exponent : ℤ}
    {normal : IsNormal significand exponent}
    (rounds : nearest negative q = .finite negative significand exponent normal) :
    nearest sign q = .finite sign significand exponent normal := by
  simp only [nearest] at rounds ⊢
  split at rounds
  · next carried => rw [if_pos carried, ofParts_eq_finite rounds]
  · next fits => rw [if_neg fits, ofParts_eq_finite rounds]

/-! ## The shortest decimal -/

/-- A candidate that is taken denotes a number that rounds to the double. -/
theorem nearest_of_onGrid? {significand : ℕ} {exponent unit : ℤ} {decimal : Decimal}
    (normal : IsNormal significand exponent) (nonzero : significand ≠ 0)
    (taken : onGrid? significand exponent unit = some decimal) :
    nearest false decimal.value = .finite false significand exponent normal := by
  have candidate : ∀ coefficient : ℕ,
      ofDecimal false coefficient unit = ofParts false significand exponent →
      nearest false (Decimal.trim coefficient unit).value =
        .finite false significand exponent normal := by
    intro coefficient returns
    rw [ofParts, dif_pos normal] at returns
    have positive : coefficient ≠ 0 := by
      rintro rfl
      rw [ofDecimal_zero, zero] at returns
      injection returns with _ zero_eq
      exact nonzero zero_eq.symm
    rw [Decimal.value_trim, ← ofDecimal_eq_nearest false positive, returns]
  unfold onGrid? at taken
  extract_lets _ _ _ returns _ near far at taken
  by_cases nearReturns : returns near
  · rw [if_pos nearReturns, Option.some.injEq] at taken
    exact taken ▸ candidate near (of_decide_eq_true nearReturns)
  · by_cases farReturns : returns far
    · rw [if_neg nearReturns, if_pos farReturns, Option.some.injEq] at taken
      exact taken ▸ candidate far (of_decide_eq_true farReturns)
    · rw [if_neg nearReturns, if_neg farReturns] at taken
      cases taken

/-- All digits of a double denote it exactly. -/
theorem value_expansion (significand : ℕ) (exponent : ℤ) :
    (expansion significand exponent).value = significand * 2 ^ exponent := by
  unfold expansion
  split
  · next whole =>
    obtain ⟨power, rfl⟩ := Int.eq_ofNat_of_zero_le whole
    simp [Nat.shiftLeft_eq]
  · next fraction =>
    obtain ⟨power, rfl⟩ : ∃ power : ℕ, exponent = -power := ⟨(-exponent).toNat, by omega⟩
    rw [Decimal.value_trim, neg_neg, Int.toNat_natCast, Nat.pow_eq, zpow_neg, zpow_neg,
      zpow_natCast, zpow_natCast]
    push_cast
    rw [show (10 : ℚ) = 2 * 5 by norm_num, mul_pow]
    field_simp

/-- The shortest decimal of a double rounds to it. -/
theorem nearest_shortest {significand : ℕ} {exponent : ℤ}
    (normal : IsNormal significand exponent) (nonzero : significand ≠ 0) :
    nearest false (shortest significand exponent).value =
      .finite false significand exponent normal := by
  simp only [shortest, if_neg nonzero]
  cases found : (List.range 17).findSome? fun extra : ℕ =>
      onGrid? significand exponent (leadingPower (magnitude significand exponent) - extra) with
  | none => simpa [value_expansion] using nearest_of_normal false normal nonzero
  | some decimal =>
    obtain ⟨extra, _, taken⟩ := List.exists_of_findSome?_eq_some found
    exact nearest_of_onGrid? normal nonzero taken

/-- **The shortest decimal of a finite double reads back as that double.** -/
theorem ofDecimal_shortest (negative : Bool) {significand : ℕ} {exponent : ℤ}
    (normal : IsNormal significand exponent) :
    ofDecimal negative (shortest significand exponent).coefficient
        (shortest significand exponent).exponent =
      .finite negative significand exponent normal := by
  by_cases nonzero : significand = 0
  · subst nonzero
    have least : exponent = -1074 := by
      rcases normal.2.2.2 with leading | least
      · exact absurd leading (by decide)
      · exact least
    subst least
    simp [shortest, zero]
  · have rounds := nearest_shortest normal nonzero
    have positive : (shortest significand exponent).coefficient ≠ 0 := by
      intro none
      rw [Decimal.value, none, Nat.cast_zero, zero_mul] at rounds
      simp [nearest, ofParts, IsNormal, roundEven] at rounds
    rw [ofDecimal_eq_nearest negative positive]
    exact nearest_eq_finite rounds

end Double

end Lisp
