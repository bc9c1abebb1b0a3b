import Mathlib.Tactic.IntervalCases
import Lisp.Proofs.Number.PositionalText
import Lisp.Proofs.Splitting
import Lisp.Value.Rendered

/-!
# Tokens that stand for one value

The printed form of a string, of a number and of a name that can be read is a
single token, and as an atom that token stands for the string, the number or the
symbol again.

A name can be read when it is its own only token and is none of the tokens that
stand for something else (`IsReadableName`).
-/

set_option autoImplicit false

namespace Lisp

/-! ## String literals -/

namespace Text

/-- Decoding undoes escaping. -/
@[simp]
theorem unescape_escape (text : List Char) : unescape (escape text) = text := by
  induction text with
  | nil => simp [escape]
  | cons c rest ih =>
    have split : escape (c :: rest) = escapeChar c ++ escape rest := by simp [escape]
    rw [split, escapeChar]
    split
    · next backslash => simp [backslash, ih]
    split
    · next newline => simp [newline, ih]
    split
    · next quote => simp [quote, ih]
    · next plain _ _ => rw [List.singleton_append, unescape_cons _ plain, ih]

/-- An escaped text closes at the first quote behind it. -/
theorem literalBody_escape (text after : List Char) :
    Lexeme.literalBody (escape text ++ '"' :: after) = (escape text ++ ['"'], after) := by
  induction text with
  | nil => simp [escape]
  | cons c rest ih =>
    have split : escape (c :: rest) = escapeChar c ++ escape rest := by simp [escape]
    rw [split, escapeChar]
    split
    · simp [ih]
    split
    · simp [ih]
    split
    · simp [ih]
    · next backslash _ quote =>
      simp [Lexeme.literalBody_cons _ quote backslash, ih]

theorem closesAtEnd_escape (text : List Char) : closesAtEnd (escape text ++ ['"']) = true := by
  induction text with
  | nil => simp [escape]
  | cons c rest ih =>
    have split : escape (c :: rest) = escapeChar c ++ escape rest := by simp [escape]
    rw [split, escapeChar]
    split
    · simp [closesAtEnd, ih]
    split
    · simp [closesAtEnd, ih]
    split
    · simp [closesAtEnd, ih]
    · next backslash _ quote =>
      simp [Lexeme.closesAtEnd_cons _ quote backslash, ih]

end Text

theorem toList_readable_string (text : String) :
    (Style.readable.string text).toList = '"' :: (Text.escape text.toList ++ ['"']) := by
  simp [Style.string]

/-- A string is printed as one token. -/
theorem isToken_readable_string (text : String) : IsToken (Style.readable.string text).toList := by
  rw [toList_readable_string, IsToken, Lexeme.split_cons, Lexeme.first_literal,
    Text.literalBody_escape text.toList [], Lexeme.split_nil]

theorem isClosed_readable_string (text : String) :
    IsClosed (Style.readable.string text).toList := by
  intro _
  rw [toList_readable_string, isCompleteLiteral]
  exact Text.closesAtEnd_escape text.toList

/-- No string literal claims to be a number. -/
theorem Numeral.head?_ne_quote_of_claimsNumber {text : List Char}
    (claims : claimsNumber text = true) : text.head? ≠ some '"' := by
  intro quoted
  cases text with
  | nil => cases quoted
  | cons c rest =>
    cases quoted
    simp [claimsNumber, unsigned] at claims

/-- A token that starts with a quote is a string literal or nothing. -/
theorem Value.ofAtom_literal {token : String} {rest : List Char}
    (quoted : token.toList = '"' :: rest) :
    Value.ofAtom token =
      if closesAtEnd rest then .ok (.string (String.ofList (Text.unescape rest.dropLast)))
      else .error (.unbalancedString token) := by
  have other : ∀ name : String, name.toList.head? ≠ some '"' → token ≠ name := by
    rintro name plain rfl
    exact plain (by rw [quoted]; rfl)
  have noNumber : Numeral.claimsNumber token.toList = false := by
    rw [Bool.eq_false_iff]
    intro claims
    exact Numeral.head?_ne_quote_of_claimsNumber claims (by rw [quoted]; rfl)
  simp only [Value.ofAtom, noNumber]
  rw [if_neg (other _ (by decide)), if_neg (other _ (by decide)), if_neg (other _ (by decide))]
  simp [quoted, isCompleteLiteral]

/-- A printed string stands for the string. -/
theorem Value.ofAtom_readable_string (text : String) :
    Value.ofAtom (Style.readable.string text) = .ok (.string text) := by
  rw [Value.ofAtom_literal (toList_readable_string text),
    if_pos (Text.closesAtEnd_escape text.toList)]
  simp

/-! ## Numbers -/

theorem Lexeme.isAtomChar_of_isDigit {c : Char} (digit : c.isDigit = true) :
    isAtomChar c = true ∧ isStructural c = false := by
  have bounds : 48 ≤ c.toNat ∧ c.toNat ≤ 57 := by
    simp only [Char.isDigit, ge_iff_le, Bool.and_eq_true, decide_eq_true_eq] at digit
    exact digit
  obtain ⟨least, greatest⟩ := bounds
  rw [← Char.ofNat_toNat c]
  generalize c.toNat = point at least greatest
  interval_cases point <;> decide

/-- A text that claims to be a number is a token. -/
theorem isToken_of_claimsNumber {text : List Char} (claims : Numeral.claimsNumber text = true) :
    IsToken text := by
  have characters : ∀ c ∈ text, c = '-' ∨ c.isDigit = true ∨ c = '.' := by
    simp only [Numeral.claimsNumber, Bool.and_eq_true, List.all_eq_true, Bool.or_eq_true,
      beq_iff_eq] at claims
    intro c member
    unfold Numeral.unsigned at claims
    split at claims
    · rcases List.mem_cons.1 member with rfl | member
      · exact .inl rfl
      · exact .inr (claims.2 c member)
    · exact .inr (claims.2 c member)
  have plain : ∀ c ∈ text, Lexeme.isAtomChar c = true ∧ Lexeme.isStructural c = false := by
    intro c member
    rcases characters c member with rfl | digit | rfl
    · decide
    · exact Lexeme.isAtomChar_of_isDigit digit
    · decide
  cases text with
  | nil => simp [Numeral.claimsNumber, Numeral.unsigned] at claims
  | cons c rest =>
    have atom : (c :: rest).all Lexeme.isAtomChar = true :=
      List.all_eq_true.2 fun d member => (plain d member).1
    exact Lexeme.isToken_atom (plain c (by simp)).2 atom

/-- A numeral stands for the double that it denotes. -/
theorem Value.ofAtom_numeral {token : String} {numeral : Numeral}
    (reads : Numeral.read? token.toList = some numeral) :
    Value.ofAtom token = .ok (.ofDouble numeral.toDouble) := by
  simp [Value.ofAtom, Numeral.claimsNumber_of_read? reads, reads]

/-- A printed finite double stands for the double. -/
theorem Value.ofAtom_finite (negative : Bool) (significand : ℕ) (exponent : ℤ)
    (normal : IsNormal significand exponent) :
    Value.ofAtom (Double.positionalText (.finite negative significand exponent normal)) =
      .ok (.ofDouble (.finite negative significand exponent normal)) := by
  obtain ⟨numeral, reads, denotes⟩ :=
    Double.read?_positionalText negative significand exponent normal
  rw [Value.ofAtom_numeral reads, denotes]

/-- A double is printed as one token. -/
theorem isToken_positionalText (x : Double) : IsToken x.positionalText.toList := by
  cases x with
  | nan => exact Lexeme.isToken_atom (by decide) (by decide)
  | infinity negative =>
    cases negative
    · exact Lexeme.isToken_atom (by decide) (by decide)
    · exact Lexeme.isToken_atom (by decide) (by decide)
  | finite negative significand exponent normal =>
    obtain ⟨numeral, reads, _⟩ :=
      Double.read?_positionalText negative significand exponent normal
    exact isToken_of_claimsNumber (Numeral.claimsNumber_of_read? reads)

/-! ## Names -/

/-- A name that is its own only token, and a token that stands for nothing but the
symbol of that name. -/
structure IsReadableName (name : String) : Prop where
  alone : tokenize name = [name]
  notOpen : name ≠ "("
  notClose : name ≠ ")"
  notQuoted : name.toList.head? ≠ some '"'
  notNumber : Numeral.claimsNumber name.toList = false
  notTrue : name ≠ "true"
  notFalse : name ≠ "false"
  notNil : name ≠ "nil"

/-- A token stands for a symbol when it stands for nothing else. -/
theorem Value.ofAtom_eq_symbol_iff {token name : String} :
    Value.ofAtom token = .ok (.symbol name) ↔
      token = name ∧ Numeral.claimsNumber token.toList = false ∧ token ≠ "true" ∧
        token ≠ "false" ∧ token ≠ "nil" ∧ token.toList.head? ≠ some '"' := by
  unfold Value.ofAtom
  dsimp only
  split
  · next claims => split <;> simp [claims, Value.ofDouble]
  split
  · next same => simp [same]
  split
  · next same => simp [same]
  split
  · next same => simp [same]
  split
  · next quoted => split <;> simp [quoted]
  · next notNumber notTrue notFalse notNil plain =>
    simp [notNumber, notTrue, notFalse, notNil, plain]

theorem IsReadableName.ofAtom {name : String} (readable : IsReadableName name) :
    Value.ofAtom name = .ok (.symbol name) :=
  Value.ofAtom_eq_symbol_iff.2 ⟨rfl, readable.notNumber, readable.notTrue, readable.notFalse,
    readable.notNil, readable.notQuoted⟩

theorem IsReadableName.isToken {name : String} (readable : IsReadableName name) :
    IsToken name.toList :=
  (tokenize_eq_self_iff name).1 readable.alone

/-- A symbol that a token stands for has a name that can be read. -/
theorem isReadableName_of_ofAtom {token name : String} (alone : IsToken token.toList)
    (notOpen : token ≠ "(") (notClose : token ≠ ")")
    (symbol : Value.ofAtom token = .ok (.symbol name)) : IsReadableName name := by
  obtain ⟨rfl, notNumber, notTrue, notFalse, notNil, notQuoted⟩ :=
    Value.ofAtom_eq_symbol_iff.1 symbol
  exact ⟨(tokenize_eq_self_iff token).2 alone, notOpen, notClose, notQuoted, notNumber, notTrue,
    notFalse, notNil⟩

end Lisp
