import Lisp.Proofs.Number.Rounding

/-!
# Rounding gives the nearest double

`Double.nearest` counts a number in units of the last of its 53 digits and rounds the count.
The doubles with units as coarse are counts of that unit themselves, and rounding the count is
best among those.  Doubles with a finer unit are all below the number, by more than rounding
moves it.  So no double is nearer, and of two that are equally near the one with an even
significand is taken (`Double.isNearest_of_nearest`).

There is no nearest double from the middle between the largest one and the next power of two on
(`Double.nearest_eq_infinity_iff`).
-/

set_option autoImplicit false

namespace Lisp

/-! ## Nearest counts -/

theorem le_roundEven {q : ℚ} {n : ℕ} (atLeast : (n : ℚ) ≤ q) : n ≤ roundEven q := by
  have floor : n ≤ ⌊q⌋₊ := Nat.le_floor atLeast
  unfold roundEven
  split
  · exact floor
  · split <;> omega

section

variable {q : ℚ} (nonneg : 0 ≤ q)
include nonneg

theorem roundEven_le {n : ℕ} (atMost : q ≤ n) : roundEven q ≤ n := by
  rcases atMost.lt_or_eq with below | rfl
  · have floor : ⌊q⌋₊ < n := (Nat.floor_lt nonneg).2 below
    unfold roundEven
    split
    · exact floor.le
    · split <;> omega
  · rw [roundEven_natCast]

theorem abs_sub_roundEven_le : |q - roundEven q| ≤ 1 / 2 := by
  have lower : (⌊q⌋₊ : ℚ) ≤ q := Nat.floor_le nonneg
  have upper : q < ⌊q⌋₊ + 1 := Nat.lt_floor_add_one q
  rw [abs_le]
  unfold roundEven
  split
  · constructor <;> linarith
  · split
    · push_cast
      constructor <;> linarith
    · have half : q = ⌊q⌋₊ + 1 / 2 := by linarith
      rcases Nat.mod_two_eq_zero_or_one ⌊q⌋₊ with even | odd
      · rw [even]
        push_cast
        constructor <;> linarith
      · rw [odd]
        push_cast
        constructor <;> linarith

/-- Only halves are moved by a half, and these to even naturals. -/
theorem roundEven_even_of_abs_sub_eq (half : |q - roundEven q| = 1 / 2) :
    roundEven q % 2 = 0 := by
  have lower : (⌊q⌋₊ : ℚ) ≤ q := Nat.floor_le nonneg
  have upper : q < ⌊q⌋₊ + 1 := Nat.lt_floor_add_one q
  unfold roundEven at half ⊢
  split at half
  · rw [abs_of_nonneg (by linarith)] at half
    linarith
  · next reaches =>
    split at half
    · push_cast at half
      rw [abs_of_neg (by linarith)] at half
      linarith
    · next within =>
      rw [if_neg reaches, if_neg within]
      omega

/-- No natural is nearer to a number than the one that it is rounded to, and if another is as
near, that one is even. -/
theorem roundEven_nearest (n : ℕ) :
    |q - roundEven q| ≤ |q - n| ∧
      (|q - roundEven q| = |q - n| → n = roundEven q ∨ roundEven q % 2 = 0) := by
  by_cases same : n = roundEven q
  · exact ⟨by rw [same], fun _ => .inl same⟩
  have moved := abs_sub_roundEven_le nonneg
  have apart : (1 : ℚ) ≤ |(n : ℚ) - roundEven q| := by
    have : (1 : ℤ) ≤ |(n : ℤ) - roundEven q| := Int.one_le_abs (by omega)
    exact_mod_cast this
  have between := abs_sub_le (n : ℚ) q (roundEven q)
  rw [abs_sub_comm (n : ℚ) q] at between
  refine ⟨by linarith, fun equal => .inr (roundEven_even_of_abs_sub_eq nonneg ?_)⟩
  exact le_antisymm moved (by linarith)

end

namespace Double

/-! ## The unit of a number -/

/-- The power of two in which a number is counted before its count is rounded. -/
def unitOf (q : ℚ) : ℤ :=
  max (-1074) (Int.log 2 q - 52)

/-- A number is fewer than `2 ^ 53` of its units. -/
theorem lt_unitOf (q : ℚ) : q < 2 ^ 53 * 2 ^ unitOf q := by
  have upper := Int.lt_zpow_succ_log_self (b := 2) one_lt_two q
  calc q < 2 ^ (Int.log 2 q + 1) := by exact_mod_cast upper
    _ ≤ 2 ^ (53 + unitOf q) := zpow_le_zpow_right₀ one_le_two (by unfold unitOf; omega)
    _ = 2 ^ 53 * 2 ^ unitOf q := by rw [zpow_add₀ two_ne_zero]; norm_num

/-- A number is `2 ^ 52` of its units at least, unless the unit is the smallest one. -/
theorem unitOf_le {q : ℚ} (positive : 0 < q) (coarse : -1074 < unitOf q) :
    2 ^ 52 * 2 ^ unitOf q ≤ q := by
  have lower := Int.zpow_log_le_self (b := 2) one_lt_two positive
  have unit : 52 + unitOf q = Int.log 2 q := by unfold unitOf at coarse ⊢; omega
  calc (2 : ℚ) ^ 52 * 2 ^ unitOf q = 2 ^ (52 + unitOf q) := by
        rw [zpow_add₀ two_ne_zero]; norm_num
    _ = 2 ^ Int.log 2 q := by rw [unit]
    _ ≤ q := by exact_mod_cast lower

theorem count_nonneg {q : ℚ} (positive : 0 < q) : 0 ≤ q / 2 ^ unitOf q :=
  div_nonneg positive.le (zpow_pos two_pos _).le

theorem count_lt (q : ℚ) : q / 2 ^ unitOf q < 2 ^ 53 :=
  (div_lt_iff₀ (zpow_pos two_pos _)).2 (lt_unitOf q)

/-- The distance from a count of units is a distance from the count in units. -/
theorem abs_sub_count (q : ℚ) (n : ℕ) :
    |q - n * 2 ^ unitOf q| = |q / 2 ^ unitOf q - n| * 2 ^ unitOf q := by
  have unit : (0 : ℚ) < 2 ^ unitOf q := zpow_pos two_pos _
  rw [← abs_of_pos unit, ← abs_mul, abs_of_pos unit, sub_mul, div_mul_cancel₀ q unit.ne']

/-- What is below `2 ^ 52` units, and the unit not the smallest one, is further off than the
rounded count. -/
theorem abs_sub_count_lt {q v : ℚ} (positive : 0 < q) (coarse : -1074 < unitOf q)
    (below : v < 2 ^ 52 * 2 ^ unitOf q) :
    |q - roundEven (q / 2 ^ unitOf q) * 2 ^ unitOf q| < |q - v| := by
  have reached := unitOf_le positive coarse
  have best := (roundEven_nearest (count_nonneg positive) (2 ^ 52)).1
  calc |q - roundEven (q / 2 ^ unitOf q) * 2 ^ unitOf q|
      = |q / 2 ^ unitOf q - roundEven (q / 2 ^ unitOf q)| * 2 ^ unitOf q := abs_sub_count _ _
    _ ≤ |q / 2 ^ unitOf q - (2 ^ 52 : ℕ)| * 2 ^ unitOf q :=
        mul_le_mul_of_nonneg_right best (zpow_pos two_pos _).le
    _ = |q - (2 ^ 52 : ℕ) * 2 ^ unitOf q| := (abs_sub_count _ _).symm
    _ = q - 2 ^ 52 * 2 ^ unitOf q := by
        push_cast
        exact abs_of_nonneg (by linarith)
    _ < q - v := by linarith
    _ ≤ |q - v| := le_abs_self _

/-- A double is a count of the units of any number, or is below the number because its own unit
is finer. -/
theorem eq_count_or_lt {significand : ℕ} {exponent : ℤ} (normal : IsNormal significand exponent)
    (q : ℚ) :
    (∃ n : ℕ, (significand : ℚ) * 2 ^ exponent = n * 2 ^ unitOf q) ∨
      -1074 < unitOf q ∧ (significand : ℚ) * 2 ^ exponent < 2 ^ 52 * 2 ^ unitOf q := by
  obtain ⟨small, least, _⟩ := normal
  rcases le_or_gt (unitOf q) exponent with coarser | finer
  · obtain ⟨places, rfl⟩ := Int.le.dest coarser
    refine .inl ⟨significand * 2 ^ places, ?_⟩
    rw [zpow_add₀ two_ne_zero, zpow_natCast]
    push_cast
    ring
  · refine .inr ⟨by omega, ?_⟩
    have digits : (significand : ℚ) < 2 ^ 53 := by exact_mod_cast small
    calc (significand : ℚ) * 2 ^ exponent
        < 2 ^ 53 * 2 ^ exponent := mul_lt_mul_of_pos_right digits (zpow_pos two_pos _)
      _ ≤ 2 ^ 53 * 2 ^ (unitOf q - 1) := by
        gcongr
        · exact one_le_two
        · omega
      _ = 2 ^ 52 * 2 ^ unitOf q := by
        rw [zpow_sub_one₀ two_ne_zero]
        ring

/-! ## Nearest doubles -/

/-- The nearest double has the rounded count of units, and half of it in twice the unit when it
comes to `2 ^ 53`. -/
theorem nearest_eq (negative : Bool) (q : ℚ) :
    nearest negative q =
      if roundEven (q / 2 ^ unitOf q) = significandEnd then
        ofParts negative leadingBit (unitOf q + 1)
      else ofParts negative (roundEven (q / 2 ^ unitOf q)) (unitOf q) :=
  rfl

/-- Whether no double is nearer to a number than the one with these parts, which has an even
significand if another is as near. -/
structure IsNearest (q : ℚ) (significand : ℕ) (exponent : ℤ) : Prop where
  le : ∀ significand' exponent', IsNormal significand' exponent' →
    |q - significand * 2 ^ exponent| ≤ |q - significand' * 2 ^ exponent'|
  even : ∀ significand' exponent', IsNormal significand' exponent' →
    |q - significand * 2 ^ exponent| = |q - significand' * 2 ^ exponent'| →
      (significand' : ℚ) * 2 ^ exponent' = significand * 2 ^ exponent ∨ significand % 2 = 0

/-- What a number is rounded to is its rounded count of units. -/
theorem eq_count_of_nearest {negative sign : Bool} {q : ℚ} {significand : ℕ} {exponent : ℤ}
    {normal : IsNormal significand exponent}
    (rounds : nearest negative q = .finite sign significand exponent normal) :
    sign = negative ∧
      (significand : ℚ) * 2 ^ exponent = roundEven (q / 2 ^ unitOf q) * 2 ^ unitOf q ∧
      (significand = roundEven (q / 2 ^ unitOf q) ∨ significand = leadingBit) := by
  have ofParts_eq : ∀ {count : ℕ} {unit : ℤ},
      ofParts negative count unit = .finite sign significand exponent normal →
        sign = negative ∧ significand = count ∧ exponent = unit := by
    intro count unit parts
    unfold ofParts at parts
    split at parts
    · cases parts
      exact ⟨rfl, rfl, rfl⟩
    · cases parts
  rw [nearest_eq] at rounds
  split at rounds
  · next carried =>
    obtain ⟨isSign, rfl, rfl⟩ := ofParts_eq rounds
    refine ⟨isSign, ?_, .inr rfl⟩
    rw [carried, zpow_add_one₀ two_ne_zero]
    push_cast
    ring
  · obtain ⟨isSign, rfl, rfl⟩ := ofParts_eq rounds
    exact ⟨isSign, rfl, .inl rfl⟩

/-- **No double is nearer to a positive number than the one that it is rounded to, and of two
that are equally near it is the one with an even significand.** -/
theorem isNearest_of_nearest {negative sign : Bool} {q : ℚ} (positive : 0 < q) {significand : ℕ}
    {exponent : ℤ} {normal : IsNormal significand exponent}
    (rounds : nearest negative q = .finite sign significand exponent normal) :
    IsNearest q significand exponent := by
  obtain ⟨_, value, parity⟩ := eq_count_of_nearest rounds
  have unit : (0 : ℚ) < 2 ^ unitOf q := zpow_pos two_pos _
  have best := roundEven_nearest (count_nonneg positive)
  constructor
  · intro significand' exponent' normal'
    rw [value]
    rcases eq_count_or_lt normal' q with ⟨n, count⟩ | ⟨coarse, below⟩
    · rw [count, abs_sub_count, abs_sub_count]
      exact mul_le_mul_of_nonneg_right (best n).1 unit.le
    · exact (abs_sub_count_lt positive coarse below).le
  · intro significand' exponent' normal' equal
    rw [value] at equal ⊢
    rcases eq_count_or_lt normal' q with ⟨n, count⟩ | ⟨coarse, below⟩
    · rw [count, abs_sub_count, abs_sub_count] at equal
      rcases (best n).2 (mul_right_cancel₀ unit.ne' equal) with rfl | even
      · exact .inl count
      · rcases parity with rfl | rfl
        · exact .inr even
        · exact .inr (by decide)
    · exact absurd equal (abs_sub_count_lt positive coarse below).ne

/-! ## Numbers that are too large -/

theorem ofParts_eq_infinity_iff {negative : Bool} {significand : ℕ} {exponent : ℤ} :
    ofParts negative significand exponent = .infinity negative ↔ ¬ IsNormal significand exponent := by
  unfold ofParts
  split
  · next normal => simp [normal]
  · next large => simp [large]

/-- A count is rounded to `2 ^ 53` from the middle between the largest one and `2 ^ 53` on. -/
theorem roundEven_count_eq_iff {q : ℚ} (positive : 0 < q) :
    roundEven (q / 2 ^ unitOf q) = significandEnd ↔ 2 ^ 53 - 1 / 2 ≤ q / 2 ^ unitOf q := by
  have nonneg := count_nonneg positive
  have below := count_lt q
  obtain ⟨down, up⟩ := abs_le.1 (abs_sub_roundEven_le nonneg)
  constructor
  · intro carried
    rw [carried] at down
    norm_num at down ⊢
    linarith
  · intro half
    have lower : significandEnd - 1 ≤ roundEven (q / 2 ^ unitOf q) :=
      le_roundEven (by norm_num; linarith)
    have upper : roundEven (q / 2 ^ unitOf q) ≤ significandEnd :=
      roundEven_le nonneg (by norm_num; linarith)
    -- the odd count below `2 ^ 53` is not what a half is rounded to
    by_contra fits
    have odd : roundEven (q / 2 ^ unitOf q) = significandEnd - 1 := by omega
    have count : (roundEven (q / 2 ^ unitOf q) : ℚ) = 2 ^ 53 - 1 := by rw [odd]; norm_num
    rw [count] at up
    have tie : |q / 2 ^ unitOf q - roundEven (q / 2 ^ unitOf q)| = 1 / 2 := by
      rw [count, abs_of_nonneg (by linarith)]
      linarith
    have even := roundEven_even_of_abs_sub_eq nonneg tie
    rw [odd] at even
    exact absurd even (by decide)

/-- From the middle between its largest count and the next power of two on, a number is counted
in a larger unit or its count is rounded up to that power. -/
theorem le_iff_unitOf {q : ℚ} (positive : 0 < q) {top : ℤ} (coarse : -1074 < top) :
    (2 ^ 53 - 1 / 2) * 2 ^ top ≤ q ↔
      top < unitOf q ∨ unitOf q = top ∧ roundEven (q / 2 ^ unitOf q) = significandEnd := by
  have unit : (0 : ℚ) < 2 ^ top := zpow_pos two_pos top
  rcases lt_trichotomy (unitOf q) top with finer | rfl | coarser
  · have doubled : (2 : ℚ) ^ unitOf q * 2 ≤ 2 ^ top := by
      rw [← zpow_add_one₀ two_ne_zero]
      exact zpow_le_zpow_right₀ one_le_two finer
    have below := lt_unitOf q
    constructor
    · intro reaches
      linarith
    · omega
  · rw [← le_div_iff₀ unit, roundEven_count_eq_iff positive]
    simp
  · have doubled : (2 : ℚ) ^ top * 2 ≤ 2 ^ unitOf q := by
      rw [← zpow_add_one₀ two_ne_zero]
      exact zpow_le_zpow_right₀ one_le_two coarser
    have above := unitOf_le positive (coarse.trans coarser)
    constructor
    · exact fun _ => .inl coarser
    · intro _
      linarith

/-- **A number is too large for a double from the middle between the largest one and the next
power of two on.** -/
theorem nearest_eq_infinity_iff (negative : Bool) {q : ℚ} (positive : 0 < q) :
    nearest negative q = .infinity negative ↔ (2 ^ 53 - 1 / 2) * 2 ^ (971 : ℤ) ≤ q := by
  rw [le_iff_unitOf positive (by decide)]
  have least : -1074 ≤ unitOf q := le_max_left _ _
  have unit : (0 : ℚ) < 2 ^ unitOf q := zpow_pos two_pos _
  have small : roundEven (q / 2 ^ unitOf q) ≤ significandEnd := by
    have below := count_lt q
    exact roundEven_le (count_nonneg positive) (by norm_num; linarith)
  have leading : -1074 < unitOf q → leadingBit ≤ roundEven (q / 2 ^ unitOf q) := by
    intro coarse
    have above : 2 ^ 52 ≤ q / 2 ^ unitOf q := (le_div_iff₀ unit).2 (unitOf_le positive coarse)
    exact le_roundEven (by norm_num; linarith)
  rw [nearest_eq]
  split
  · next carried =>
    rw [ofParts_eq_infinity_iff]
    have leading : leadingBit < significandEnd := by decide
    unfold IsNormal
    omega
  · next fits =>
    rw [ofParts_eq_infinity_iff, IsNormal]
    omega

end Double

end Lisp
