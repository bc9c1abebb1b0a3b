import Mathlib.Data.List.TakeWhile
import Lisp.Number.Numeral
import Lisp.Number.Text
import Lisp.Proofs.Number.Shortest

/-!
# Printed numbers are numerals

Positional notation is a sign, digits, and perhaps a point with digits behind it,
so it reads as a numeral.  The numeral denotes the decimal that was written
(`read?_positional`), and for a finite double that decimal reads back as the
double itself (`read?_positionalText`).
-/

set_option autoImplicit false

namespace Lisp

namespace Numeral

/-- The decimal that a numeral writes, without its sign. -/
def decimal (numeral : Numeral) : Decimal :=
  ⟨Nat.ofDigitChars 10 (numeral.whole ++ numeral.fraction) 0, -(numeral.fraction.length : ℤ)⟩

theorem toDouble_eq (numeral : Numeral) :
    numeral.toDouble =
      .ofDecimal numeral.negative numeral.decimal.coefficient numeral.decimal.exponent :=
  rfl

/-- A text behind the minus sign of a negative number. -/
def signed (negative : Bool) (text : List Char) : List Char :=
  if negative then '-' :: text else text

/-- Digits are no sign. -/
theorem hasSign_signed (negative : Bool) {text : List Char} (unsigned : text.head? ≠ some '-') :
    hasSign (signed negative text) = negative := by
  cases negative with
  | true => rfl
  | false =>
    unfold signed hasSign
    split
    · simp_all
    · rfl

theorem unsigned_signed (negative : Bool) {text : List Char} (plain : text.head? ≠ some '-') :
    unsigned (signed negative text) = text := by
  cases negative with
  | true => rfl
  | false =>
    unfold signed unsigned
    split
    · simp_all
    · rfl

theorem head?_ne_minus {text : List Char} (digits : ∀ c ∈ text, c.isDigit = true) (rest : List Char)
    (nonempty : text ≠ []) : (text ++ rest).head? ≠ some '-' := by
  cases text with
  | nil => exact absurd rfl nonempty
  | cons c text =>
    rintro same
    have := digits c (by simp)
    simp_all

/-- Digits alone are a numeral. -/
theorem read?_whole (negative : Bool) {whole : List Char}
    (digits : ∀ c ∈ whole, c.isDigit = true) (nonempty : whole ≠ []) :
    read? (signed negative whole) = some ⟨negative, whole, []⟩ := by
  have plain := head?_ne_minus digits [] nonempty
  rw [List.append_nil] at plain
  have all : whole.takeWhile Char.isDigit = whole := by simpa [List.takeWhile_eq_self_iff]
  have left : whole.dropWhile Char.isDigit = [] := by simpa [List.dropWhile_eq_nil_iff]
  simp [read?, unsigned_signed negative plain, hasSign_signed negative plain, all, left, nonempty]

/-- Digits, a point and further digits are a numeral. -/
theorem read?_point (negative : Bool) {whole fraction : List Char}
    (digits : ∀ c ∈ whole, c.isDigit = true) (nonempty : whole ≠ [])
    (further : ∀ c ∈ fraction, c.isDigit = true) :
    read? (signed negative (whole ++ '.' :: fraction)) = some ⟨negative, whole, fraction⟩ := by
  have plain := head?_ne_minus digits ('.' :: fraction) nonempty
  have taken : (whole ++ '.' :: fraction).takeWhile Char.isDigit = whole := by
    rw [List.takeWhile_append_of_pos digits]
    simp
  have left : (whole ++ '.' :: fraction).dropWhile Char.isDigit = '.' :: fraction := by
    rw [List.dropWhile_append_of_pos digits]
    simp
  have both : fraction.all Char.isDigit = true := List.all_eq_true.2 further
  simp [read?, unsigned_signed negative plain, hasSign_signed negative plain, taken, left, nonempty,
    both]

/-- A numeral claims to be a number. -/
theorem claimsNumber_of_read? {text : List Char} {numeral : Numeral}
    (reads : read? text = some numeral) : claimsNumber text = true := by
  have body := (List.takeWhile_append_dropWhile (p := Char.isDigit) (l := unsigned text)).symm
  have digits : ∀ c ∈ (unsigned text).takeWhile Char.isDigit, c.isDigit = true :=
    fun c member => List.mem_takeWhile_imp member
  unfold read? at reads
  dsimp only at reads
  generalize (unsigned text).takeWhile Char.isDigit = whole at reads body digits
  generalize (unsigned text).dropWhile Char.isDigit = left at reads body
  unfold claimsNumber
  rw [body]
  split at reads
  · split at reads
    · cases reads
    · next nonempty => simp_all
  · next fraction =>
    split at reads
    · next further =>
      simp only [Bool.and_eq_true, List.all_eq_true] at further
      simp only [Bool.and_eq_true, List.all_eq_true, List.mem_append, List.mem_cons]
      refine ⟨by simp, ?_⟩
      rintro c (member | rfl | member)
      · simp [digits c member]
      · rfl
      · simp [further.1 c member]
    · cases reads
  · cases reads

end Numeral

namespace Decimal

theorem isDigit_digits (decimal : Decimal) : ∀ c ∈ decimal.digits, c.isDigit = true :=
  fun _ member => Nat.isDigit_of_mem_toDigits (by decide) (by decide) member

theorem digits_ne_nil (decimal : Decimal) : decimal.digits ≠ [] :=
  Nat.toDigits_ne_nil

theorem ofDigitChars_digits (decimal : Decimal) :
    Nat.ofDigitChars 10 decimal.digits 0 = decimal.coefficient :=
  Nat.ofDigitChars_ten_toDigits

theorem isDigit_zeros (count : ℕ) : ∀ c ∈ List.replicate count '0', c.isDigit = true := by
  intro c member
  rw [List.eq_of_mem_replicate member]
  decide

/-- A decimal with no digits behind the point has digits only. -/
theorem isDigit_positional {decimal : Decimal} (whole : 0 ≤ decimal.exponent) :
    ∀ c ∈ decimal.positional, c.isDigit = true := by
  rw [positional, if_pos whole]
  intro c member
  exact (List.mem_append.1 member).elim (decimal.isDigit_digits c) (isDigit_zeros _ c)

/-- A decimal in positional notation reads as a numeral that writes the same number, as a natural
or with the exponent of the decimal. -/
theorem exists_numeral_positional (negative : Bool) (decimal : Decimal) :
    ∃ numeral, Numeral.read? (Numeral.signed negative decimal.positional) = some numeral ∧
      numeral.negative = negative ∧
      numeral.decimal =
        ⟨decimal.coefficient * 10 ^ decimal.exponent.toNat, min decimal.exponent 0⟩ := by
  have digits := decimal.isDigit_digits
  have nonempty := decimal.digits_ne_nil
  unfold positional
  split
  · next whole =>
    obtain ⟨power, exponent⟩ := Int.eq_ofNat_of_zero_le whole
    have isDigit := isDigit_positional whole
    rw [positional, if_pos whole] at isDigit
    refine ⟨_, Numeral.read?_whole negative isDigit (by simp [nonempty]), rfl, ?_⟩
    simp [Numeral.decimal, exponent, Nat.ofDigitChars_append, ofDigitChars_digits, Nat.mul_comm]
  · next fraction =>
    have position : decimal.pointPosition = decimal.digits.length + decimal.exponent := rfl
    have exponent : decimal.exponent.toNat = 0 := by omega
    unfold withPoint
    split
    · next inside =>
      obtain ⟨before, before_eq⟩ := Int.eq_ofNat_of_zero_le inside.le
      refine ⟨_, Numeral.read?_point negative (fun c member => digits c (List.mem_of_mem_take member))
        ?_ (fun c member => digits c (List.mem_of_mem_drop member)), rfl, ?_⟩
      · simp [nonempty]
        omega
      · simp only [Numeral.decimal, List.take_append_drop, ofDigitChars_digits, List.length_drop,
          exponent, Nat.pow_zero, Nat.mul_one]
        congr 1
        omega
    · next left =>
      have zero : ∀ c ∈ ['0'], c.isDigit = true := by simp
      refine ⟨_, Numeral.read?_point negative zero (by simp) ?_, rfl, ?_⟩
      · intro c member
        exact (List.mem_append.1 member).elim (isDigit_zeros _ c) (digits c)
      · simp only [Numeral.decimal, List.singleton_append, Nat.ofDigitChars_cons,
          Nat.ofDigitChars_append, Nat.ofDigitChars_replicate_zero, Nat.mul_zero, Nat.zero_add,
          Nat.sub_self, ofDigitChars_digits, List.length_append, List.length_replicate,
          exponent, Nat.pow_zero, Nat.mul_one]
        congr 1
        omega

/-- A decimal in positional notation reads as a numeral that denotes it. -/
theorem read?_positional (negative : Bool) (decimal : Decimal) :
    ∃ numeral, Numeral.read? (Numeral.signed negative decimal.positional) = some numeral ∧
      numeral.toDouble = .ofDecimal negative decimal.coefficient decimal.exponent := by
  obtain ⟨numeral, reads, rfl, written⟩ := exists_numeral_positional negative decimal
  refine ⟨numeral, reads, ?_⟩
  rw [numeral.toDouble_eq, written]
  simp only [Double.ofDecimal]
  by_cases whole : 0 ≤ decimal.exponent
  · simp [whole]
  · simp [whole, Int.min_eq_left (Int.not_le.1 whole).le, Int.toNat_of_nonpos (Int.not_le.1 whole).le]

end Decimal

/-- A finite double is printed as a numeral that denotes that very double. -/
theorem Double.read?_positionalText (negative : Bool) (significand : ℕ) (exponent : ℤ)
    (normal : IsNormal significand exponent) :
    ∃ numeral, Numeral.read? (positionalText (.finite negative significand exponent normal)).toList =
        some numeral ∧
      numeral.toDouble = .finite negative significand exponent normal := by
  obtain ⟨numeral, reads, denotes⟩ :=
    (shortest significand exponent).read?_positional negative
  refine ⟨numeral, ?_, denotes.trans (ofDecimal_shortest negative normal)⟩
  simpa [positionalText, textWith, Numeral.signed] using reads

end Lisp
