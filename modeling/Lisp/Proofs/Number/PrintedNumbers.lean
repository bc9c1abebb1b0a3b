import Mathlib.Data.List.DropRight
import Lisp.Proofs.AtomGrammar

/-!
# Printed numbers are exact

Messages show a number with its shortest digits and perhaps a power of ten.  Programs print the
same number in positional notation, digit for digit what the shown text writes, without the zeros
and the point at its end that say nothing (`printed_number_is_exact`).

Nothing is lost, as both texts write the one decimal (`ofText?_scaled`, `ofText?_positional`).
Nothing is left over either, as the decimal is trimmed: no coefficient but zero ends in a zero
(`isTrimmed_shortest`), so in positional notation a zero at the end stands before the point.
-/

set_option autoImplicit false

namespace Lisp

/-! ## The digits of a natural -/

theorem getLast?_toDigits (n : ℕ) : (Nat.toDigits 10 n).getLast? = some (n % 10).digitChar := by
  by_cases small : n < 10
  · rw [Nat.toDigits_of_lt_base small, Nat.mod_eq_of_lt small, List.getLast?_singleton]
  · rw [Nat.toDigits_of_base_le (by decide) (Nat.not_lt.1 small), List.getLast?_concat]

/-- Only zero has a zero as its first digit. -/
theorem head?_toDigits_ne_zero {n : ℕ} (nonzero : n ≠ 0) :
    (Nat.toDigits 10 n).head? ≠ some '0' := by
  induction n using Nat.strongRecOn with
  | ind n ih =>
    by_cases small : n < 10
    · rw [Nat.toDigits_of_lt_base small]
      intro zero
      exact nonzero (Nat.digitChar_eq_zero.1 (Option.some.inj zero))
    · rw [Nat.toDigits_of_base_le (by decide) (Nat.not_lt.1 small),
        List.head?_append_of_ne_nil _ Nat.toDigits_ne_nil]
      exact ih (n / 10) (by omega) (by omega)

/-- The digits of a multiple of a power of ten end in as many zeros. -/
theorem toDigits_mul_pow {n : ℕ} (nonzero : n ≠ 0) (power : ℕ) :
    Nat.toDigits 10 (n * 10 ^ power) = Nat.toDigits 10 n ++ List.replicate power '0' := by
  induction power with
  | zero => simp
  | succ power ih =>
    have positive : 0 < n * 10 ^ power := by positivity
    have tenfold := Nat.toDigits_append_toDigits (b := 10) (d := 0) (by decide) positive (by decide)
    rw [Nat.pow_succ, ← Nat.mul_assoc, Nat.mul_comm _ 10, ← Nat.add_zero (10 * _), ← tenfold, ih,
      Nat.toDigits_zero, List.append_assoc, ← List.replicate_succ', List.replicate_succ']

/-! ## What a text writes -/

/-- The natural that digits write. -/
def natural? (digits : List Char) : Option ℕ :=
  if digits ≠ [] ∧ digits.all Char.isDigit then some (Nat.ofDigitChars 10 digits 0) else none

/-- The power of ten that a sign and digits write. -/
def power? : List Char → Option ℤ
  | '+' :: digits => (natural? digits).map fun power : ℕ => (power : ℤ)
  | '-' :: digits => (natural? digits).map fun power : ℕ => -(power : ℤ)
  | _ => none

/-- The sign and the decimal that a text writes, which is a numeral or a numeral and behind it a
power of ten. -/
def Decimal.ofText? (text : List Char) : Option (Bool × Decimal) := do
  let numeral ← Numeral.read? (text.takeWhile (· ≠ 'e'))
  let power ←
    match text.dropWhile (· ≠ 'e') with
    | [] => some 0
    | _ :: power => power? power
  some (numeral.negative, ⟨numeral.decimal.coefficient, numeral.decimal.exponent + power⟩)

theorem natural?_of_digits {digits : List Char} (nonempty : digits ≠ [])
    (isDigit : ∀ c ∈ digits, c.isDigit = true) :
    natural? digits = some (Nat.ofDigitChars 10 digits 0) :=
  if_pos ⟨nonempty, List.all_eq_true.2 isDigit⟩

/-- A power of ten is written with its sign, and a zero before a single digit says nothing. -/
theorem power?_exponentText (power : ℤ) : power? (Decimal.exponentText power) = some power := by
  have isDigit : ∀ c ∈ Nat.toDigits 10 power.natAbs, c.isDigit = true :=
    fun _ member => Nat.isDigit_of_mem_toDigits (by decide) (by decide) member
  have bare : natural? (Nat.toDigits 10 power.natAbs) = some power.natAbs := by
    rw [natural?_of_digits Nat.toDigits_ne_nil isDigit, Nat.ofDigitChars_ten_toDigits]
  have padded : natural? ('0' :: Nat.toDigits 10 power.natAbs) = some power.natAbs := by
    rw [natural?_of_digits (List.cons_ne_nil _ _) (by simpa using isDigit), Nat.ofDigitChars_cons,
      Nat.mul_zero, Nat.sub_self, Nat.ofDigitChars_ten_toDigits]
  have either : natural? (if (Nat.toDigits 10 power.natAbs).length < 2 then
      '0' :: Nat.toDigits 10 power.natAbs else Nat.toDigits 10 power.natAbs) =
        some power.natAbs := by
    split <;> assumption
  unfold Decimal.exponentText
  by_cases negative : power < 0
  · have value : -(power.natAbs : ℤ) = power := by omega
    simp only [negative, if_true, power?, either, Option.map_some, value]
  · have value : (power.natAbs : ℤ) = power := by omega
    simp only [negative, if_false, power?, either, Option.map_some, value]

/-- A numeral has no mark of an exponent in it. -/
theorem Numeral.e_notMem_of_read? {text : List Char} {numeral : Numeral}
    (reads : Numeral.read? text = some numeral) : 'e' ∉ text := by
  obtain ⟨negative, body, rfl, -, characters⟩ :=
    (Numeral.claimsNumber_iff text).1 (Numeral.claimsNumber_of_read? reads)
  have unmarked : 'e' ∉ body := by
    intro member
    rcases characters 'e' member with digit | point
    · exact absurd digit (by decide)
    · exact absurd point (by decide)
  cases negative with
  | false => exact unmarked
  | true => exact List.not_mem_cons_of_ne_of_not_mem (by decide) unmarked

theorem Numeral.unmarked_of_read? {text : List Char} {numeral : Numeral}
    (reads : Numeral.read? text = some numeral) : ∀ c ∈ text, decide (c ≠ 'e') = true :=
  fun _ member => decide_eq_true fun same => e_notMem_of_read? reads (same ▸ member)

theorem Numeral.signed_append (negative : Bool) (text behind : List Char) :
    Numeral.signed negative (text ++ behind) = Numeral.signed negative text ++ behind := by
  cases negative <;> rfl

namespace Decimal

/-- A numeral writes what it reads as. -/
theorem ofText?_numeral {text : List Char} {numeral : Numeral}
    (reads : Numeral.read? text = some numeral) :
    ofText? text = some (numeral.negative, numeral.decimal) := by
  have unmarked := Numeral.unmarked_of_read? reads
  have taken := List.takeWhile_eq_self_iff.2 unmarked
  have left := List.dropWhile_eq_nil_iff.2 unmarked
  simp only [ofText?, taken, left, reads, Option.bind_eq_bind, Option.bind_some, Int.add_zero]

/-- A numeral with a power of ten behind it writes as many times what it reads as. -/
theorem ofText?_power {text : List Char} {numeral : Numeral}
    (reads : Numeral.read? text = some numeral) (power : ℤ) :
    ofText? (text ++ 'e' :: exponentText power) =
      some (numeral.negative, ⟨numeral.decimal.coefficient, numeral.decimal.exponent + power⟩) := by
  have unmarked := Numeral.unmarked_of_read? reads
  have taken : (text ++ 'e' :: exponentText power).takeWhile (· ≠ 'e') = text := by
    rw [List.takeWhile_append_of_pos unmarked]
    simp
  have left : (text ++ 'e' :: exponentText power).dropWhile (· ≠ 'e') =
      'e' :: exponentText power := by
    rw [List.dropWhile_append_of_pos unmarked]
    simp
  simp only [ofText?, taken, left, reads, power?_exponentText, Option.bind_eq_bind,
    Option.bind_some]

/-- In positional notation a decimal is written as a natural or with its own exponent. -/
theorem ofText?_positional (negative : Bool) (decimal : Decimal) :
    ofText? (Numeral.signed negative decimal.positional) =
      some (negative,
        ⟨decimal.coefficient * 10 ^ decimal.exponent.toNat, min decimal.exponent 0⟩) := by
  obtain ⟨numeral, reads, rfl, written⟩ := exists_numeral_positional negative decimal
  rw [ofText?_numeral reads, written]

/-- What is written in positional notation denotes the same number as the decimal. -/
theorem value_positional (decimal : Decimal) :
    (⟨decimal.coefficient * 10 ^ decimal.exponent.toNat, min decimal.exponent 0⟩ : Decimal).value =
      decimal.value := by
  rcases le_total 0 decimal.exponent with whole | fraction
  · obtain ⟨power, exponent⟩ := Int.eq_ofNat_of_zero_le whole
    simp [value, exponent]
  · simp [value, Int.toNat_of_nonpos fraction, Int.min_eq_left fraction]

/-- In scientific notation a decimal is written as it is. -/
theorem ofText?_scientific (negative : Bool) (decimal : Decimal) :
    ofText? (Numeral.signed negative decimal.scientific) = some (negative, decimal) := by
  have isDigit := decimal.isDigit_digits
  have written := decimal.ofDigitChars_digits
  have position : decimal.pointPosition = decimal.digits.length + decimal.exponent := rfl
  unfold scientific
  rw [Numeral.signed_append]
  rcases digits : decimal.digits with _ | ⟨first, _ | ⟨second, others⟩⟩
  · exact absurd digits decimal.digits_ne_nil
  · rw [digits] at isDigit written position
    rw [ofText?_power (Numeral.read?_whole negative isDigit (List.cons_ne_nil _ _))]
    have power : -(0 : ℤ) + (decimal.pointPosition - 1) = decimal.exponent := by
      rw [position, List.length_singleton]
      omega
    simp only [Numeral.decimal, List.append_nil, written, List.length_nil, Nat.cast_zero, power]
  · rw [digits] at isDigit written position
    have leading : ∀ c ∈ [first], c.isDigit = true := by
      simpa using isDigit first List.mem_cons_self
    have others_digits : ∀ c ∈ second :: others, c.isDigit = true :=
      fun c member => isDigit c (List.mem_cons_of_mem _ member)
    have mantissa := Numeral.read?_point negative leading (List.cons_ne_nil _ _) others_digits
    rw [List.singleton_append] at mantissa
    have power : -((second :: others).length : ℤ) + (decimal.pointPosition - 1) =
        decimal.exponent := by
      simp only [position, List.length_cons]
      omega
    simp only [ofText?_power mantissa, Numeral.decimal, List.singleton_append, written, power]

/-! ## Trimmed decimals -/

/-- Whether no zero at the end of the coefficient could be left out. -/
def IsTrimmed (decimal : Decimal) : Prop :=
  decimal.coefficient % 10 = 0 → decimal = ⟨0, 0⟩

theorem isTrimmed_trim (coefficient : ℕ) (exponent : ℤ) : (trim coefficient exponent).IsTrimmed := by
  fun_induction trim coefficient exponent with
  | case1 => exact fun _ => rfl
  | case2 _ _ _ _ ih => exact ih
  | case3 coefficient exponent _ last => exact fun zero => absurd zero last

end Decimal

namespace Double

theorem isTrimmed_of_onGrid? {significand : ℕ} {exponent unit : ℤ} {decimal : Decimal}
    (taken : onGrid? significand exponent unit = some decimal) : decimal.IsTrimmed := by
  unfold onGrid? at taken
  extract_lets _ _ _ returns _ near far at taken
  split at taken
  · exact Option.some.inj taken ▸ Decimal.isTrimmed_trim near unit
  · split at taken
    · exact Option.some.inj taken ▸ Decimal.isTrimmed_trim far unit
    · cases taken

/-- **The shortest decimal of a double has no zero at the end that could be left out.** -/
theorem isTrimmed_shortest (significand : ℕ) (exponent : ℤ) :
    (shortest significand exponent).IsTrimmed := by
  unfold shortest
  split
  · exact fun _ => rfl
  · dsimp only
    cases found : (List.range 17).findSome? fun extra : ℕ =>
        onGrid? significand exponent (leadingPower (magnitude significand exponent) - extra) with
    | some decimal =>
      obtain ⟨extra, _, taken⟩ := List.exists_of_findSome?_eq_some found
      exact isTrimmed_of_onGrid? taken
    | none =>
      rw [Option.getD_none, expansion]
      split <;> exact Decimal.isTrimmed_trim _ _

end Double

/-! ## Positional notation -/

namespace Numeral

/-- A text that has a point without the zeros at its end, and then without a point there. -/
def stripped (text : List Char) : List Char :=
  if '.' ∈ text then (text.rdropWhile (· = '0')).rdropWhile (· = '.') else text

/-- A numeral in which nothing could be left out: no point at its end, no zero there behind a
point, and no zero before other digits. -/
structure IsCanonical (text : List Char) : Prop where
  numeral : IsNumeral text
  no_last_point : text.getLast? ≠ some '.'
  no_last_zero : '.' ∈ text → text.getLast? ≠ some '0'
  no_first_zero : ∀ rest, unsigned text = '0' :: rest → rest = [] ∨ rest.head? = some '.'

theorem rdropWhile_of_getLast?_ne {text : List Char} {c : Char} (last : text.getLast? ≠ some c) :
    text.rdropWhile (· = c) = text :=
  List.rdropWhile_eq_self_iff.2 fun nonempty same =>
    last (by rw [List.getLast?_eq_some_getLast nonempty, of_decide_eq_true same])

theorem IsCanonical.stripped {text : List Char} (canonical : IsCanonical text) :
    Numeral.stripped text = text := by
  unfold Numeral.stripped
  split
  · next point =>
    rw [rdropWhile_of_getLast?_ne (canonical.no_last_zero point),
      rdropWhile_of_getLast?_ne canonical.no_last_point]
  · rfl

theorem stripped_point_zero {text : List Char} (last : text.getLast? ≠ some '.') :
    stripped (text ++ ['.', '0']) = text := by
  have apart : text ++ ['.', '0'] = text ++ ['.'] ++ ['0'] := by simp
  rw [stripped, if_pos (by simp), apart, List.rdropWhile_concat_pos _ _ _ (by decide),
    List.rdropWhile_concat_neg _ _ _ (by decide), List.rdropWhile_concat_pos _ _ _ (by decide),
    rdropWhile_of_getLast?_ne last]

end Numeral

namespace Decimal

/-- A decimal with digits behind the point ends in its last digit. -/
theorem getLast?_positional {decimal : Decimal} (fraction : decimal.exponent < 0) :
    decimal.positional.getLast? = some (decimal.coefficient % 10).digitChar := by
  have position : decimal.pointPosition = decimal.digits.length + decimal.exponent := rfl
  have last := getLast?_toDigits decimal.coefficient
  rw [← digits] at last
  rw [positional, if_neg (Int.not_le.2 fraction), withPoint]
  split
  · next inside =>
    have some_behind : decimal.digits.drop decimal.pointPosition.toNat ≠ [] := by
      rw [ne_eq, List.drop_eq_nil_iff]
      omega
    rw [List.getLast?_append_of_ne_nil _ (List.cons_ne_nil _ _),
      List.getLast?_cons_of_ne_nil some_behind, List.getLast?_drop, if_neg (by omega), last]
  · rw [List.getLast?_cons_of_ne_nil (List.cons_ne_nil _ _),
      List.getLast?_cons_of_ne_nil (by simp [decimal.digits_ne_nil]),
      List.getLast?_append_of_ne_nil _ decimal.digits_ne_nil, last]

theorem positional_ne_nil (decimal : Decimal) : decimal.positional ≠ [] := by
  unfold positional withPoint
  split
  · simp [decimal.digits_ne_nil]
  · split <;> simp

theorem positional_head?_ne_minus (decimal : Decimal) : decimal.positional.head? ≠ some '-' := by
  have isDigit := decimal.isDigit_digits
  unfold positional withPoint
  split
  · exact Numeral.head?_ne_minus isDigit _ decimal.digits_ne_nil
  · split
    · refine Numeral.head?_ne_minus (fun c member => isDigit c (List.mem_of_mem_take member)) _ ?_
      simp [decimal.digits_ne_nil]
      omega
    · simp

/-- Positional notation ends in a digit, and where there is a point, the digit is no zero. -/
theorem IsTrimmed.getLast?_positional {decimal : Decimal} (trimmed : decimal.IsTrimmed) :
    decimal.positional.getLast? ≠ some '.' ∧
      ('.' ∈ decimal.positional → decimal.positional.getLast? ≠ some '0') := by
  by_cases whole : 0 ≤ decimal.exponent
  · have isDigit := isDigit_positional whole
    have pointless : '.' ∉ decimal.positional := fun member => absurd (isDigit _ member) (by decide)
    exact ⟨fun last => pointless (List.mem_of_getLast? last), fun member => absurd member pointless⟩
  · rw [Decimal.getLast?_positional (Int.not_le.1 whole)]
    refine ⟨fun point => Nat.digitChar_ne '.' (by decide) (Option.some.inj point), fun _ zero => ?_⟩
    have canonical := trimmed (Nat.digitChar_eq_zero.1 (Option.some.inj zero))
    rw [canonical] at whole
    exact whole (Int.le_refl 0)

/-- Positional notation starts with a zero only for zero itself and before a point. -/
theorem IsTrimmed.positional_first_zero {decimal : Decimal} (trimmed : decimal.IsTrimmed)
    {rest : List Char} (zero : decimal.positional = '0' :: rest) :
    rest = [] ∨ rest.head? = some '.' := by
  by_cases nothing : decimal.coefficient = 0
  · rw [trimmed (by rw [nothing])] at zero
    cases zero
    exact .inl rfl
  · have first : decimal.digits.head? ≠ some '0' := head?_toDigits_ne_zero nothing
    obtain ⟨digit, others, digits⟩ := List.exists_cons_of_ne_nil decimal.digits_ne_nil
    rw [digits, List.head?_cons] at first
    unfold positional withPoint at zero
    rw [digits] at zero
    split at zero
    · cases zero
      exact absurd rfl first
    · split at zero
      · next inside =>
        obtain ⟨before, position⟩ : ∃ before, decimal.pointPosition.toNat = before + 1 :=
          ⟨decimal.pointPosition.toNat - 1, by omega⟩
        rw [position, List.take_succ_cons] at zero
        cases zero
        exact absurd rfl first
      · cases zero
        exact .inr rfl

/-- A trimmed decimal in positional notation is written canonically. -/
theorem IsTrimmed.isCanonical_positional {decimal : Decimal} (trimmed : decimal.IsTrimmed)
    (negative : Bool) : Numeral.IsCanonical (Numeral.signed negative decimal.positional) := by
  obtain ⟨numeral, reads, -, -⟩ := exists_numeral_positional negative decimal
  have last : (Numeral.signed negative decimal.positional).getLast? =
      decimal.positional.getLast? := by
    cases negative with
    | false => rfl
    | true => exact List.getLast?_cons_of_ne_nil decimal.positional_ne_nil
  have point : '.' ∈ Numeral.signed negative decimal.positional → '.' ∈ decimal.positional := by
    cases negative with
    | false => exact id
    | true => exact fun member => List.mem_of_ne_of_mem (by decide) member
  refine ⟨(Numeral.isSome_read?_iff _).1 (by rw [reads]; rfl), ?_, ?_, ?_⟩
  · rw [last]
    exact trimmed.getLast?_positional.1
  · rw [last]
    exact fun member => trimmed.getLast?_positional.2 (point member)
  · rw [Numeral.unsigned_signed negative decimal.positional_head?_ne_minus]
    exact fun rest => trimmed.positional_first_zero

/-- A decimal that is trimmed and denotes a natural is written with the digits of the natural,
also with those zeros at the end that it does not keep. -/
theorem IsTrimmed.positional_of_value_eq {decimal : Decimal} (trimmed : decimal.IsTrimmed) {n : ℕ}
    (value : decimal.value = n) : decimal.positional = Nat.toDigits 10 n := by
  unfold Decimal.value at value
  by_cases nothing : decimal.coefficient = 0
  · rw [nothing, Nat.cast_zero, zero_mul] at value
    rw [trimmed (by rw [nothing]), Nat.cast_eq_zero.1 value.symm]
    rfl
  · rcases lt_or_ge decimal.exponent 0 with fraction | whole
    · obtain ⟨power, exponent⟩ : ∃ power : ℕ, decimal.exponent = -(power + 1 : ℕ) :=
        ⟨(-decimal.exponent).toNat - 1, by omega⟩
      have product : decimal.coefficient = n * 10 ^ (power + 1) := by
        rw [exponent, zpow_neg, zpow_natCast, mul_inv_eq_iff_eq_mul₀ (by positivity)] at value
        exact_mod_cast value
      have tenfold : decimal.coefficient % 10 = 0 := by
        rw [product, Nat.pow_succ, ← Nat.mul_assoc, Nat.mul_mod_left]
      rw [trimmed tenfold] at nothing
      exact absurd rfl nothing
    · obtain ⟨power, exponent⟩ := Int.eq_ofNat_of_zero_le whole
      have product : decimal.coefficient * 10 ^ power = n := by
        rw [exponent, zpow_natCast] at value
        exact_mod_cast value
      rw [positional, if_pos whole, exponent, Int.toNat_natCast, ← product,
        toDigits_mul_pow nothing, digits]

/-! ## From the shown text to the printed one -/

/-- A decimal with no digits behind the point denotes a natural. -/
theorem exists_value_eq_natCast {decimal : Decimal} (whole : 0 ≤ decimal.exponent) :
    ∃ n : ℕ, decimal.value = n := by
  obtain ⟨power, exponent⟩ := Int.eq_ofNat_of_zero_le whole
  refine ⟨decimal.coefficient * 10 ^ power, ?_⟩
  rw [Decimal.value, exponent, zpow_natCast]
  push_cast
  rfl

/-- A natural with a point and a zero behind it writes its tenths. -/
theorem ofText?_point_zero (negative : Bool) {decimal : Decimal} (whole : 0 ≤ decimal.exponent)
    {n : ℕ} (printed : decimal.positional = Nat.toDigits 10 n) :
    ofText? (Numeral.signed negative (decimal.positional ++ ['.', '0'])) =
      some (negative, ⟨10 * n, -1⟩) := by
  have zero : ∀ c ∈ ['0'], c.isDigit = true := by simp
  have reads := Numeral.read?_point negative (isDigit_positional whole)
    decimal.positional_ne_nil zero
  rw [ofText?_numeral reads]
  simp [Numeral.decimal, printed, Nat.ofDigitChars_append, Nat.ofDigitChars_cons]

/-- A number of tenths that is whole is written with one zero behind the point. -/
theorem positional_tenths (n : ℕ) : positional ⟨10 * n, -1⟩ = Nat.toDigits 10 n ++ ['.', '0'] := by
  by_cases nothing : n = 0
  · subst nothing
    rfl
  · have digits_eq : (⟨10 * n, -1⟩ : Decimal).digits = Nat.toDigits 10 n ++ ['0'] := by
      simpa [digits, Nat.mul_comm] using toDigits_mul_pow nothing 1
    have some_digits := List.length_pos_iff.2 (Nat.toDigits_ne_nil (b := 10) (n := n))
    have position : (⟨10 * n, -1⟩ : Decimal).pointPosition = (Nat.toDigits 10 n).length := by
      simp [pointPosition, digits_eq]
    rw [positional, if_neg (by simp), digits_eq, position, withPoint, if_pos (by omega)]
    simp

/-- **What is shown of a decimal writes it**, and in positional notation, stripped of the zeros
and the point at its end, it is what is printed. -/
theorem IsTrimmed.ofText?_scaled {decimal : Decimal} (trimmed : decimal.IsTrimmed)
    (negative : Bool) :
    ∃ shown, ofText? (Numeral.signed negative decimal.scaled) = some (negative, shown) ∧
      shown.value = decimal.value ∧
      Numeral.stripped (Numeral.signed negative shown.positional) =
        Numeral.signed negative decimal.positional := by
  have canonical := trimmed.isCanonical_positional negative
  unfold scaled
  dsimp only
  split
  · exact ⟨decimal, ofText?_scientific negative decimal, rfl, canonical.stripped⟩
  · split
    · next whole =>
      obtain ⟨n, value⟩ := exists_value_eq_natCast whole
      have printed := trimmed.positional_of_value_eq value
      refine ⟨⟨10 * n, -1⟩, ofText?_point_zero negative whole printed, ?_, ?_⟩
      · rw [value, Decimal.value, zpow_neg_one]
        push_cast
        ring
      · rw [positional_tenths, ← printed, Numeral.signed_append]
        exact Numeral.stripped_point_zero canonical.no_last_point
    · next fraction =>
      have below : decimal.exponent ≤ 0 := by omega
      refine ⟨decimal, ?_, rfl, canonical.stripped⟩
      rw [ofText?_positional, Int.toNat_of_nonpos below, Int.min_eq_left below, Nat.pow_zero,
        Nat.mul_one]

end Decimal

/-! ## Printed numbers -/

/-- **A printed number is exact.**  For every finite double it has the sign of the text that is
shown of the double and writes the same number; it is what the shown text comes to in positional
notation, stripped of the zeros and the point at its end.  There is no exponent in it: it is a
numeral, and one token, and nothing in it could be left out.  A number that is whole is written
with all digits of a natural, so also with the zeros at its end. -/
theorem printed_number_is_exact (negative : Bool) (significand : ℕ) (exponent : ℤ)
    (normal : IsNormal significand exponent) :
    let x := Double.finite negative significand exponent normal
    let text := x.positionalText.toList
    ∃ shown printed : Decimal,
      Decimal.ofText? x.scaledText.toList = some (negative, shown) ∧
      Decimal.ofText? text = some (negative, printed) ∧ printed.value = shown.value ∧
      text = Numeral.stripped (Numeral.signed negative shown.positional) ∧
      'e' ∉ text ∧ Numeral.IsCanonical text ∧ tokenize x.positionalText = [x.positionalText] ∧
      ∀ n : ℕ, shown.value = n → Numeral.unsigned text = Nat.toDigits 10 n := by
  intro x text
  have trimmed := Double.isTrimmed_shortest significand exponent
  generalize decimal_eq : Double.shortest significand exponent = decimal at trimmed
  have scaled_eq : x.scaledText.toList = Numeral.signed negative decimal.scaled := by
    simp [x, Double.scaledText, Double.textWith, decimal_eq, Numeral.signed]
  have text_eq : text = Numeral.signed negative decimal.positional := by
    simp [text, x, Double.positionalText, Double.textWith, decimal_eq, Numeral.signed]
  obtain ⟨shown, shows, same, stripped⟩ := trimmed.ofText?_scaled negative
  obtain ⟨numeral, reads, -, -⟩ := Decimal.exists_numeral_positional negative decimal
  refine ⟨shown, _, by rw [scaled_eq, shows], by rw [text_eq, Decimal.ofText?_positional],
    by rw [Decimal.value_positional, same], by rw [text_eq, stripped], ?_, ?_, ?_, ?_⟩
  · rw [text_eq]
    exact Numeral.e_notMem_of_read? reads
  · rw [text_eq]
    exact trimmed.isCanonical_positional negative
  · exact (tokenize_eq_self_iff _).2 (isToken_positionalText x)
  · intro n value
    rw [text_eq, Numeral.unsigned_signed negative decimal.positional_head?_ne_minus]
    exact trimmed.positional_of_value_eq (same ▸ value)

/-- The double of `-10 ^ 22` is shown with a power of ten and printed with all its zeros. -/
theorem power_of_ten_printed_in_full :
    let x := Double.finite true 0x10f0cf064dd592 21 (by decide)
    let text := "-10000000000000000000000"
    IsNormal 0x10f0cf064dd592 21 ∧ x.scaledText = "-1e+22" ∧ x.positionalText = text ∧
      Decimal.ofText? "-1e+22".toList = some (true, ⟨1, 22⟩) ∧
      (∃ printed, Decimal.ofText? text.toList = some (true, printed) ∧ printed.value = 10 ^ 22) ∧
      Numeral.IsCanonical text.toList ∧ tokenize text = [text] ∧
      Numeral.unsigned text.toList = Nat.toDigits 10 (10 ^ 22) := by
  intro x text
  have normal : IsNormal 0x10f0cf064dd592 21 := by decide
  have shown_eq : x.scaledText = "-1e+22" := by decide +kernel
  have text_eq : x.positionalText = text := by decide +kernel
  have written : Decimal.ofText? "-1e+22".toList = some (true, ⟨1, 22⟩) := by decide +kernel
  have value : (⟨1, 22⟩ : Decimal).value = 10 ^ 22 := by
    rw [Decimal.value]
    norm_num
  obtain ⟨shown, printed, shows, prints, same, -, -, canonical, alone, whole⟩ :=
    printed_number_is_exact true _ _ normal
  rw [shown_eq, written] at shows
  rw [text_eq] at prints canonical alone whole
  cases shows
  exact ⟨normal, shown_eq, text_eq, written, ⟨printed, prints, same.trans value⟩, canonical, alone,
    whole (10 ^ 22) (by rw [value]; norm_num)⟩

end Lisp
