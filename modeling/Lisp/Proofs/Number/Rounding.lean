import Mathlib.Algebra.Order.Floor.Semifield
import Mathlib.Data.Int.Log
import Mathlib.Data.Rat.Floor
import Mathlib.Tactic.FieldSimp
import Mathlib.Tactic.Linarith
import Mathlib.Tactic.Ring
import Lisp.Number.Double

/-!
# Rounding depends on the value alone

Every operation on doubles rounds a number that is given by integers: a
significand with a power of two, or a numerator with a denominator.  The double
that comes out is a function of the rational number alone (`Double.nearest`), so
two ways of writing one number round alike.

A quotient is rounded from finitely many of its digits and one more that says
whether anything was left.  These digits lie on the same side of every even
number as the quotient itself (`StandsFor`), and the places where rounding turns
from one double to the next are even there.

A number that is a double already is left as it is (`nearest_of_normal`).
-/

set_option autoImplicit false

namespace Lisp

/-! ## Halves to even -/

/-- The natural nearest to a rational number, halves to the even one. -/
def roundEven (q : ℚ) : ℕ :=
  if q < ⌊q⌋₊ + 1 / 2 then ⌊q⌋₊
  else if ⌊q⌋₊ + 1 / 2 < q then ⌊q⌋₊ + 1
  else ⌊q⌋₊ + ⌊q⌋₊ % 2

/-- A natural is nearest to itself. -/
@[simp]
theorem roundEven_natCast (n : ℕ) : roundEven n = n := by
  simp [roundEven]

/-- Rounding asks of a number only on which side of naturals and of halves it lies. -/
theorem roundEven_congr {q r : ℚ} (nonneg : 0 ≤ q) (nonneg' : 0 ≤ r)
    (whole : ∀ n : ℕ, q < n ↔ r < n) (below : ∀ n : ℕ, q < n + 1 / 2 ↔ r < n + 1 / 2)
    (above : ∀ n : ℕ, n + 1 / 2 < q ↔ n + 1 / 2 < r) : roundEven q = roundEven r := by
  have floor : ⌊q⌋₊ = ⌊r⌋₊ := by
    refine eq_of_forall_lt_iff fun n => ?_
    rw [← not_le, ← not_le, ← Nat.lt_succ_iff, ← Nat.lt_succ_iff, Nat.floor_lt nonneg,
      Nat.floor_lt nonneg', whole]
  simp only [roundEven, floor, below, above]

/-- Dropping binary digits with rounding is rounding the quotient. -/
theorem roundShift_eq (n places : ℕ) :
    Double.roundShift n places = roundEven ((n : ℚ) / 2 ^ places) := by
  have unit : (0 : ℚ) < 2 ^ places := by positivity
  have kept : ⌊(n : ℚ) / 2 ^ places⌋₊ = n / 2 ^ places := by
    exact_mod_cast Nat.floor_div_eq_div (K := ℚ) n (2 ^ places)
  have split : (n : ℚ) = 2 ^ places * (n / 2 ^ places : ℕ) + (n % 2 ^ places : ℕ) := by
    exact_mod_cast (Nat.div_add_mod n (2 ^ places)).symm
  have below : (n : ℚ) / 2 ^ places < (n / 2 ^ places : ℕ) + 1 / 2 ↔
      2 * (n % 2 ^ places) < 2 ^ places := by
    rw [div_lt_iff₀ unit, ← Nat.cast_lt (α := ℚ)]
    push_cast
    constructor <;> intro side <;> linarith
  have above : ((n / 2 ^ places : ℕ) : ℚ) + 1 / 2 < (n : ℚ) / 2 ^ places ↔
      2 ^ places < 2 * (n % 2 ^ places) := by
    rw [lt_div_iff₀ unit, ← Nat.cast_lt (α := ℚ)]
    push_cast
    constructor <;> intro side <;> linarith
  simp only [Double.roundShift, roundEven, kept, below, above, Nat.shiftRight_eq_div_pow,
    Nat.one_shiftLeft]

/-! ## Digits that stand for a number -/

/-- A natural on the same side of every even number as a rational number. -/
structure StandsFor (n : ℕ) (q : ℚ) : Prop where
  below : ∀ half : ℕ, q < 2 * half ↔ (n : ℚ) < 2 * half
  above : ∀ half : ℕ, 2 * half < q ↔ 2 * half < (n : ℚ)

/-- The whole part, and one more digit for whether anything is left of the quotient. -/
theorem standsFor_quotient (numerator denominator : ℕ) (positive : 0 < denominator) :
    StandsFor
      (2 * (numerator / denominator) + if numerator % denominator = 0 then 0 else 1)
      (2 * ((numerator : ℚ) / denominator)) := by
  have unit : (0 : ℚ) < denominator := by exact_mod_cast positive
  have parts := Nat.div_add_mod numerator denominator
  have small := Nat.mod_lt numerator positive
  refine ⟨fun half => ?_, fun half => ?_⟩
  · have side : (numerator : ℚ) / denominator < half ↔ numerator / denominator < half := by
      rw [div_lt_iff₀ unit, Nat.div_lt_iff_lt_mul positive]
      exact_mod_cast Iff.rfl
    have double : 2 * ((numerator : ℚ) / denominator) < 2 * half ↔
        (numerator : ℚ) / denominator < half := by
      constructor <;> intro _ <;> linarith
    rw [double, side]
    norm_cast
    split <;> omega
  · have side : (half : ℚ) < (numerator : ℚ) / denominator ↔
        half * denominator < numerator := by
      rw [lt_div_iff₀ unit]
      exact_mod_cast Iff.rfl
    have double : 2 * (half : ℚ) < 2 * ((numerator : ℚ) / denominator) ↔
        (half : ℚ) < (numerator : ℚ) / denominator := by
      constructor <;> intro _ <;> linarith
    rw [double, side]
    norm_cast
    -- `half` times the denominator is compared with the multiple below the numerator
    split
    · next exact =>
      constructor
      · intro less
        have : half < numerator / denominator := by
          by_contra reaches
          have := Nat.mul_le_mul_left denominator (Nat.le_of_not_lt reaches)
          rw [Nat.mul_comm half] at less
          omega
        omega
      · intro less
        have := Nat.mul_le_mul_left denominator (show half + 1 ≤ numerator / denominator by omega)
        rw [Nat.mul_add, Nat.mul_one, Nat.mul_comm denominator half] at this
        omega
    · next left =>
      constructor
      · intro less
        have : half ≤ numerator / denominator := by
          rw [Nat.le_div_iff_mul_le positive]
          omega
        omega
      · intro less
        have := Nat.mul_le_mul_left denominator (show half ≤ numerator / denominator by omega)
        rw [Nat.mul_comm denominator half] at this
        omega

/-- Behind a stand-in, rounding away two digits or more gives the same. -/
theorem StandsFor.roundEven_eq {n : ℕ} {q : ℚ} (stands : StandsFor n q) (nonneg : 0 ≤ q)
    {places : ℕ} (enough : 2 ≤ places) :
    roundEven (q / 2 ^ places) = roundEven ((n : ℚ) / 2 ^ places) := by
  obtain ⟨further, rfl⟩ := Nat.exists_eq_add_of_le enough
  have unit : (0 : ℚ) < 2 ^ (2 + further) := by positivity
  have whole : ∀ m : ℕ, (m : ℚ) * 2 ^ (2 + further) = 2 * ((m * 2 ^ (1 + further) : ℕ) : ℚ) := by
    intro m
    push_cast
    ring
  have halves : ∀ m : ℕ,
      ((m : ℚ) + 1 / 2) * 2 ^ (2 + further) = 2 * (((2 * m + 1) * 2 ^ further : ℕ) : ℚ) := by
    intro m
    push_cast
    ring
  refine roundEven_congr (by positivity) (by positivity) (fun m => ?_) (fun m => ?_) (fun m => ?_)
  · rw [div_lt_iff₀ unit, div_lt_iff₀ unit, whole, stands.below]
  · rw [div_lt_iff₀ unit, div_lt_iff₀ unit, halves, stands.below]
  · rw [lt_div_iff₀ unit, lt_div_iff₀ unit, halves, stands.above]

/-- A stand-in of more than one has the same binary logarithm. -/
theorem StandsFor.log_eq {n : ℕ} {q : ℚ} (stands : StandsFor n q) (more : 2 ≤ n) :
    Int.log 2 q = n.log2 := by
  have atLeast : 2 ≤ q := by
    have := stands.below 1
    push_cast at this
    by_contra less
    have := this.1 (by linarith)
    norm_cast at this
    omega
  have positive : 0 < q := by linarith
  have nonzero : n ≠ 0 := by omega
  obtain ⟨power, log⟩ : ∃ power, n.log2 = power + 1 :=
    Nat.exists_eq_add_of_le' ((Nat.le_log2 nonzero).2 more)
  have bounds := (Nat.log2_eq_iff nonzero).1 log
  have lower : ¬ (n : ℚ) < 2 * (2 ^ power : ℕ) := by
    rw [not_lt]
    exact_mod_cast (pow_succ' 2 power).symm.le.trans bounds.1
  have upper : (n : ℚ) < 2 * (2 ^ (power + 1) : ℕ) := by
    exact_mod_cast bounds.2.trans_eq (pow_succ' 2 (power + 1))
  rw [← stands.below] at lower upper
  have reached : (2 : ℚ) ^ ((power + 1 : ℕ) : ℤ) ≤ q := by
    rw [zpow_natCast, pow_succ']
    exact_mod_cast not_lt.1 lower
  have passed : q < (2 : ℚ) ^ ((power + 1 : ℕ) + 1 : ℤ) := by
    rw [zpow_add_one₀ two_ne_zero, zpow_natCast, mul_comm]
    exact_mod_cast upper
  rw [log]
  refine le_antisymm (Int.lt_add_one_iff.1 ?_) ?_
  · exact (Int.lt_zpow_iff_log_lt one_lt_two positive).1 (by exact_mod_cast passed)
  · exact (Int.zpow_le_iff_le_log one_lt_two positive).1 (by exact_mod_cast reached)

/-! ## The nearest double -/

namespace Double

/-- The double nearest to a positive rational number, with a sign: the number in
units of the last of 53 binary digits, or of the smallest unit there is, rounded to
a whole count of them. -/
def nearest (negative : Bool) (q : ℚ) : Double :=
  let unit := max (-1074) (Int.log 2 q - 52)
  let rounded := roundEven (q / 2 ^ unit)
  if rounded = significandEnd then ofParts negative leadingBit (unit + 1)
  else ofParts negative rounded unit

theorem log_mul_zpow {q : ℚ} (positive : 0 < q) (exponent : ℤ) :
    Int.log 2 (q * 2 ^ exponent) = Int.log 2 q + exponent := by
  have unit : (0 : ℚ) < 2 ^ exponent := zpow_pos two_pos exponent
  have product : 0 < q * 2 ^ exponent := mul_pos positive unit
  have lower := Int.zpow_log_le_self (b := 2) one_lt_two positive
  have upper := Int.lt_zpow_succ_log_self (b := 2) one_lt_two q
  push_cast at lower upper
  refine le_antisymm (Int.lt_add_one_iff.1 ?_) ?_
  · refine (Int.lt_zpow_iff_log_lt one_lt_two product).1 ?_
    push_cast
    rw [show Int.log 2 q + exponent + 1 = Int.log 2 q + 1 + exponent by ring,
      zpow_add₀ two_ne_zero]
    gcongr
  · refine (Int.zpow_le_iff_le_log one_lt_two product).1 ?_
    push_cast
    rw [zpow_add₀ two_ne_zero]
    gcongr

theorem log_natCast_eq_log2 (n : ℕ) : Int.log 2 (n : ℚ) = n.log2 := by
  rw [Int.log_natCast, Nat.log2_eq_log_two]

/-- A significand with a power of two is rounded by its value. -/
theorem ofBinary_eq_nearest (negative : Bool) {significand : ℕ} (nonzero : significand ≠ 0)
    (exponent : ℤ) :
    ofBinary negative significand exponent = nearest negative (significand * 2 ^ exponent) := by
  have positive : (0 : ℚ) < significand := by exact_mod_cast Nat.pos_of_ne_zero nonzero
  have log : Int.log 2 ((significand : ℚ) * 2 ^ exponent) = exponent + significand.log2 := by
    rw [log_mul_zpow positive, log_natCast_eq_log2, add_comm]
  simp only [ofBinary, nearest, if_neg nonzero, log]
  generalize target_eq : max (-1074) (exponent + (significand.log2 : ℤ) - 52) = target
  split
  · next exact =>
    -- the unit is no coarser than the number's own, so nothing is rounded away
    obtain ⟨places, rfl⟩ := Int.le.dest exact
    have count : (significand : ℚ) * 2 ^ (target + places) / 2 ^ target =
        (significand * 2 ^ places : ℕ) := by
      rw [zpow_add₀ two_ne_zero, zpow_natCast]
      push_cast
      field_simp
    have small : significand * 2 ^ places < significandEnd := by
      have digits := (Nat.log2_lt nonzero).1 (Nat.lt_succ_self significand.log2)
      calc significand * 2 ^ places
          < 2 ^ (significand.log2 + 1) * 2 ^ places := by gcongr
        _ = 2 ^ (significand.log2 + 1 + places) := (pow_add _ _ _).symm
        _ ≤ 2 ^ 53 := Nat.pow_le_pow_right two_pos (by omega)
    rw [count, roundEven_natCast, if_neg small.ne, Nat.shiftLeft_eq,
      show (target + places - target).toNat = places by omega]
  · next coarser =>
    have count : (significand : ℚ) * 2 ^ exponent / 2 ^ target =
        significand / 2 ^ (target - exponent).toNat := by
      have places : target = exponent + ((target - exponent).toNat : ℤ) := by omega
      conv_lhs => rw [places, zpow_add₀ two_ne_zero, zpow_natCast]
      field_simp
    rw [count, ← roundShift_eq]

/-- A stand-in with digits to spare rounds to the same double. -/
theorem nearest_of_standsFor (negative : Bool) {n : ℕ} {q : ℚ} (stands : StandsFor n q)
    (digits : 55 ≤ n.log2) (exponent : ℤ) :
    nearest negative (q * 2 ^ exponent) = nearest negative (n * 2 ^ exponent) := by
  have more : 2 ≤ n := by
    by_contra less
    have : n.log2 ≤ n := Nat.log2_le_self n
    omega
  have positive : (0 : ℚ) < n := by exact_mod_cast (show 0 < n by omega)
  have positive' : 0 < q := by
    have := (stands.above 0).2 (by simpa using positive)
    simpa using this
  have log : Int.log 2 ((n : ℚ) * 2 ^ exponent) = n.log2 + exponent := by
    rw [log_mul_zpow positive, log_natCast_eq_log2]
  have log' : Int.log 2 (q * 2 ^ exponent) = n.log2 + exponent := by
    rw [log_mul_zpow positive', stands.log_eq more]
  simp only [nearest, log, log']
  generalize unit_eq : max (-1074) ((n.log2 : ℤ) + exponent - 52) = unit
  obtain ⟨places, rfl⟩ := Int.le.dest (show exponent ≤ unit by omega)
  have shift : ∀ r : ℚ, r * 2 ^ exponent / 2 ^ (exponent + places : ℤ) = r / 2 ^ places := by
    intro r
    rw [zpow_add₀ two_ne_zero, zpow_natCast]
    field_simp
  rw [shift, shift, stands.roundEven_eq positive'.le (by omega)]

/-- A quotient is rounded by its value. -/
theorem ofRatio_eq_nearest (negative : Bool) {numerator denominator : ℕ}
    (nonzero : numerator ≠ 0) (nonzero' : denominator ≠ 0) :
    ofRatio negative numerator denominator =
      nearest negative ((numerator : ℚ) / denominator) := by
  have lower := Nat.log2_self_le nonzero
  have upper := (Nat.log2_lt nonzero').1 (Nat.lt_succ_self denominator.log2)
  simp only [ofRatio]
  generalize places_eq : (55 : ℤ) + denominator.log2 - numerator.log2 = places
  -- the scaled fraction is the quotient times a power of two, with 55 digits before the point
  obtain ⟨scaled, scaled_eq, positive, value, digits⟩ : ∃ scaled : ℕ × ℕ,
      (if 0 ≤ places then (numerator <<< places.toNat, denominator)
        else (numerator, denominator <<< (-places).toNat)) = scaled ∧ 0 < scaled.2 ∧
      (scaled.1 : ℚ) / scaled.2 = (numerator : ℚ) / denominator * 2 ^ places ∧
      2 ^ 54 ≤ scaled.1 / scaled.2 := by
    refine ⟨_, rfl, ?_⟩
    split
    · next raised =>
      obtain ⟨count, rfl⟩ := Int.eq_ofNat_of_zero_le raised
      refine ⟨Nat.pos_of_ne_zero nonzero', ?_, ?_⟩
      · simp only [Int.toNat_natCast, Nat.shiftLeft_eq]
        push_cast
        rw [zpow_natCast]
        ring
      · simp only [Int.toNat_natCast, Nat.shiftLeft_eq]
        rw [Nat.le_div_iff_mul_le (Nat.pos_of_ne_zero nonzero')]
        calc 2 ^ 54 * denominator ≤ 2 ^ 54 * 2 ^ (denominator.log2 + 1) := by gcongr
          _ = 2 ^ (numerator.log2 + count) := by rw [← pow_add]; congr 1; omega
          _ = 2 ^ numerator.log2 * 2 ^ count := pow_add _ _ _
          _ ≤ numerator * 2 ^ count := by gcongr
    · next lowered =>
      obtain ⟨count, rfl⟩ : ∃ count : ℕ, places = -count :=
        ⟨(-places).toNat, by omega⟩
      have positive : 0 < denominator * 2 ^ count :=
        Nat.mul_pos (Nat.pos_of_ne_zero nonzero') (by positivity)
      simp only [neg_neg, Int.toNat_natCast, Nat.shiftLeft_eq]
      refine ⟨positive, ?_, ?_⟩
      · push_cast
        rw [zpow_neg, zpow_natCast]
        field_simp
      · rw [Nat.le_div_iff_mul_le positive]
        calc 2 ^ 54 * (denominator * 2 ^ count)
            ≤ 2 ^ 54 * (2 ^ (denominator.log2 + 1) * 2 ^ count) := by gcongr
          _ = 2 ^ numerator.log2 := by rw [← pow_add, ← pow_add]; congr 1; omega
          _ ≤ numerator := lower
  rw [scaled_eq]
  have stands := standsFor_quotient scaled.1 scaled.2 positive
  have log : 55 ≤ (2 * (scaled.1 / scaled.2) +
      if scaled.1 % scaled.2 = 0 then 0 else 1).log2 := by
    rw [Nat.le_log2 (by omega)]
    omega
  have back : 2 * ((scaled.1 : ℚ) / scaled.2) * 2 ^ (-places - 1) =
      (numerator : ℚ) / denominator := by
    rw [value, zpow_sub_one₀ two_ne_zero, zpow_neg]
    field_simp
  rw [ofBinary_eq_nearest negative (by omega), ← nearest_of_standsFor negative stands log, back]

/-- A number that is a double already is left as it is. -/
theorem nearest_of_normal (negative : Bool) {significand : ℕ} {exponent : ℤ}
    (normal : IsNormal significand exponent) (nonzero : significand ≠ 0) :
    nearest negative (significand * 2 ^ exponent) =
      .finite negative significand exponent normal := by
  have positive : (0 : ℚ) < significand := by exact_mod_cast Nat.pos_of_ne_zero nonzero
  have ⟨small, least, _, leading⟩ := normal
  have log : Int.log 2 ((significand : ℚ) * 2 ^ exponent) = significand.log2 + exponent := by
    rw [log_mul_zpow positive, log_natCast_eq_log2]
  have log_lt : significand.log2 < 53 := (Nat.log2_lt nonzero).2 small
  have unit : max (-1074) ((significand.log2 : ℤ) + exponent - 52) = exponent := by
    rcases leading with leading | rfl
    · have : 52 ≤ significand.log2 := (Nat.le_log2 nonzero).2 leading
      omega
    · omega
  have count : (significand : ℚ) * 2 ^ exponent / 2 ^ exponent = significand := by
    field_simp
  simp only [nearest, log, unit, count, roundEven_natCast, if_neg small.ne, ofParts, dif_pos normal]

end Double

end Lisp
