import Lisp.Proofs.Atoms

/-!
# Which atoms can be read

What is asked of a token that is no parenthesis is a matter of its characters.  Text
that is shaped as a number has to be a numeral, and text that starts with a quote has to
be a literal: characters that stand for themselves and pairs with a backslash, between
two quotes.  Every other text is an atom.

The grammars here say so character by character, and the tests that the reader makes are
these grammars (`claimsNumber_iff`, `isSome_read?_iff`, `isCompleteLiteral_iff`).  So a
token can be read just when it is well formed (`exists_ofAtom_iff`), and when it is not,
the error says which of the two it fails to be (`ofAtom_error_iff`).
-/

set_option autoImplicit false

namespace Lisp

/-! ## Numerals -/

namespace Numeral

/-- Text with the shape of a number: digits and points, at least one of them, perhaps
behind a minus sign. -/
def IsNumberShaped (text : List Char) : Prop :=
  ∃ negative body, text = signed negative body ∧ body ≠ [] ∧
    ∀ c ∈ body, c.isDigit = true ∨ c = '.'

/-- A numeral without sign: digits, perhaps with a point and further digits behind them,
or a point and digits. -/
inductive IsUnsigned : List Char → Prop where
  | whole {digits : List Char} : digits ≠ [] → (∀ c ∈ digits, c.isDigit = true) →
      IsUnsigned digits
  | point {digits further : List Char} : digits ≠ [] → (∀ c ∈ digits, c.isDigit = true) →
      (∀ c ∈ further, c.isDigit = true) → IsUnsigned (digits ++ '.' :: further)
  | fraction {further : List Char} : further ≠ [] → (∀ c ∈ further, c.isDigit = true) →
      IsUnsigned ('.' :: further)

/-- A numeral, perhaps with a minus sign. -/
def IsNumeral (text : List Char) : Prop :=
  ∃ negative body, text = signed negative body ∧ IsUnsigned body

theorem signed_hasSign_unsigned (text : List Char) : signed (hasSign text) (unsigned text) = text := by
  unfold hasSign unsigned
  split <;> rfl

/-- The test for the shape of a number is that shape. -/
theorem claimsNumber_iff (text : List Char) : claimsNumber text = true ↔ IsNumberShaped text := by
  constructor
  · intro claims
    refine ⟨hasSign text, unsigned text, (signed_hasSign_unsigned text).symm, ?_⟩
    simpa [claimsNumber] using claims
  · rintro ⟨negative, body, rfl, nonempty, characters⟩
    have plain : body.head? ≠ some '-' := by
      intro sign
      obtain ⟨rest, rfl⟩ := List.head?_eq_some_iff.1 sign
      rcases characters '-' (by simp) with digit | point
      · exact absurd digit (by decide)
      · exact absurd point (by decide)
    simpa [claimsNumber, unsigned_signed negative plain, nonempty] using characters

theorem read?_fraction (negative : Bool) {fraction : List Char} (nonempty : fraction ≠ [])
    (digits : ∀ c ∈ fraction, c.isDigit = true) :
    read? (signed negative ('.' :: fraction)) = some ⟨negative, [], fraction⟩ := by
  have plain : ('.' :: fraction).head? ≠ some '-' := by simp
  have noDigit : Char.isDigit '.' = false := by decide
  have all : fraction.all Char.isDigit = true := List.all_eq_true.2 digits
  simp [read?, unsigned_signed negative plain, hasSign_signed negative plain, noDigit, all, nonempty]

/-- What is read as a numeral is one: the digits before a point, if there is one, and those
behind it make up the text. -/
theorem isNumeral_of_read? {text : List Char} (reads : (read? text).isSome = true) :
    IsNumeral text := by
  refine ⟨hasSign text, unsigned text, (signed_hasSign_unsigned text).symm, ?_⟩
  have body := @List.takeWhile_append_dropWhile _ Char.isDigit (unsigned text)
  have digits : ∀ c ∈ (unsigned text).takeWhile Char.isDigit, c.isDigit = true :=
    fun c member => List.mem_takeWhile_imp member
  unfold read? at reads
  dsimp only at reads
  generalize (unsigned text).takeWhile Char.isDigit = whole at reads body digits
  generalize (unsigned text).dropWhile Char.isDigit = left at reads body
  rw [← body]
  split at reads
  · split at reads
    · cases reads
    · next nonempty =>
      rw [List.append_nil]
      exact .whole (by simpa using nonempty) digits
  · next fraction =>
    split at reads
    · next further =>
      simp only [Bool.and_eq_true, List.all_eq_true, Bool.not_eq_true', Bool.and_eq_false_iff,
        List.isEmpty_eq_false_iff] at further
      by_cases nonempty : whole = []
      · subst nonempty
        exact .fraction (further.2.resolve_left (by simp)) further.1
      · exact .point nonempty digits further.1
    · cases reads
  · cases reads

/-- Reading a numeral succeeds just on numerals. -/
theorem isSome_read?_iff (text : List Char) : (read? text).isSome = true ↔ IsNumeral text := by
  constructor
  · exact isNumeral_of_read?
  · rintro ⟨negative, body, rfl, unsigned⟩
    cases unsigned with
    | whole nonempty digits =>
      rw [read?_whole negative digits nonempty]
      rfl
    | point nonempty digits further =>
      rw [read?_point negative digits nonempty further]
      rfl
    | fraction nonempty digits =>
      rw [read?_fraction negative nonempty digits]
      rfl

end Numeral

/-! ## Literals -/

/-- What the text between the quotes of a literal is made of: a backslash with the
character behind it, or a character that is neither a backslash nor a quote. -/
inductive IsLiteralItem : List Char → Prop where
  | pair (c : Char) : IsLiteralItem ['\\', c]
  | plain {c : Char} : c ≠ '"' → c ≠ '\\' → IsLiteralItem [c]

/-- A string literal with its closing quote. -/
def IsLiteral (text : List Char) : Prop :=
  ∃ items : List (List Char), (∀ item ∈ items, IsLiteralItem item) ∧
    text = '"' :: (items.flatten ++ ['"'])

theorem closesAtEnd_iff (text : List Char) :
    closesAtEnd text = true ↔ ∃ items : List (List Char), (∀ item ∈ items, IsLiteralItem item) ∧
      text = items.flatten ++ ['"'] := by
  constructor
  · intro closes
    induction text using Lexeme.literal_induction with
    | nil => simp [closesAtEnd] at closes
    | backslash => simp [closesAtEnd] at closes
    | pair c rest ih =>
      obtain ⟨items, each, rfl⟩ := ih (by simpa [closesAtEnd] using closes)
      exact ⟨['\\', c] :: items, List.forall_mem_cons.2 ⟨.pair c, each⟩, by simp⟩
    | quote rest =>
      obtain rfl : rest = [] := by simpa using closes
      exact ⟨[], by simp, rfl⟩
    | plain c rest noQuote noBackslash ih =>
      rw [Lexeme.closesAtEnd_cons rest noQuote noBackslash] at closes
      obtain ⟨items, each, rfl⟩ := ih closes
      exact ⟨[c] :: items, List.forall_mem_cons.2 ⟨.plain noQuote noBackslash, each⟩, by simp⟩
  · rintro ⟨items, each, rfl⟩
    induction items with
    | nil => simp
    | cons item items ih =>
      obtain ⟨first, others⟩ := List.forall_mem_cons.1 each
      cases first with
      | pair c => simpa [closesAtEnd] using ih others
      | plain noQuote noBackslash =>
        simpa [Lexeme.closesAtEnd_cons _ noQuote noBackslash] using ih others

/-- The test for a complete literal is that grammar. -/
theorem isCompleteLiteral_iff (text : List Char) : isCompleteLiteral text = true ↔ IsLiteral text := by
  unfold isCompleteLiteral
  split
  · next rest =>
    rw [closesAtEnd_iff]
    simp [IsLiteral]
  · next noQuote =>
    constructor
    · nofun
    · rintro ⟨items, _, rfl⟩
      exact absurd rfl (noQuote _)

/-! ## Atoms -/

/-- What is asked of a token that is no parenthesis. -/
structure IsWellFormedAtom (token : String) : Prop where
  numeral : Numeral.IsNumberShaped token.toList → Numeral.IsNumeral token.toList
  literal : token.toList.head? = some '"' → IsLiteral token.toList

/-- How a token fails to be an atom, with the error that says so. -/
inductive IsIllFormedAtom : String → Error → Prop where
  | number {token : String} : Numeral.IsNumberShaped token.toList →
      ¬ Numeral.IsNumeral token.toList → IsIllFormedAtom token (.malformedNumber token)
  | string {token : String} : token.toList.head? = some '"' → ¬ IsLiteral token.toList →
      IsIllFormedAtom token (.unbalancedString token)

theorem IsIllFormedAtom.not_isWellFormedAtom {token : String} {error : Error}
    (ill : IsIllFormedAtom token error) : ¬ IsWellFormedAtom token := by
  intro well
  cases ill with
  | number shaped noNumeral => exact noNumeral (well.numeral shaped)
  | string quoted noLiteral => exact noLiteral (well.literal quoted)

/-- A token stands for a value, and is well formed, or has an error, and is not. -/
theorem ofAtom_cases_wellFormed (token : String) :
    (∃ value, Value.ofAtom token = .ok value) ∧ IsWellFormedAtom token ∨
      ∃ error, Value.ofAtom token = .error error ∧ IsIllFormedAtom token error := by
  by_cases claims : Numeral.claimsNumber token.toList = true
  · have unquoted := Numeral.head?_ne_quote_of_claimsNumber claims
    have shaped := (Numeral.claimsNumber_iff _).1 claims
    cases reads : Numeral.read? token.toList with
    | some numeral =>
      have isNumeral := (Numeral.isSome_read?_iff _).1 (by rw [reads]; rfl)
      exact .inl ⟨⟨_, Value.ofAtom_numeral reads⟩, fun _ => isNumeral,
        fun quoted => absurd quoted unquoted⟩
    | none =>
      have noNumeral : ¬ Numeral.IsNumeral token.toList := by
        rw [← Numeral.isSome_read?_iff, reads]
        decide
      refine .inr ⟨.malformedNumber token, ?_, .number shaped noNumeral⟩
      simp [Value.ofAtom, claims, reads]
  · have unshaped : ¬ Numeral.IsNumberShaped token.toList := by rwa [← Numeral.claimsNumber_iff]
    by_cases quoted : token.toList.head? = some '"'
    · obtain ⟨rest, text⟩ := List.head?_eq_some_iff.1 quoted
      have literal : IsLiteral token.toList ↔ closesAtEnd rest = true := by
        rw [← isCompleteLiteral_iff, text]
        rfl
      have value := Value.ofAtom_literal text
      by_cases closes : closesAtEnd rest = true
      · rw [if_pos closes] at value
        exact .inl ⟨⟨_, value⟩, fun shaped => absurd shaped unshaped, fun _ => literal.2 closes⟩
      · rw [if_neg closes] at value
        exact .inr ⟨_, value, .string quoted (mt literal.1 closes)⟩
    · refine .inl ⟨?_, fun shaped => absurd shaped unshaped, fun starts => absurd starts quoted⟩
      have noNumber : Numeral.claimsNumber token.toList = false := by simpa using claims
      simp only [Value.ofAtom, noNumber, quoted, Bool.false_eq_true, if_false]
      split
      · exact ⟨_, rfl⟩
      split
      · exact ⟨_, rfl⟩
      split
      · exact ⟨_, rfl⟩
      · exact ⟨_, rfl⟩

/-- **A token stands for a value just when it is well formed.** -/
theorem exists_ofAtom_iff (token : String) :
    (∃ value, Value.ofAtom token = .ok value) ↔ IsWellFormedAtom token := by
  rcases ofAtom_cases_wellFormed token with ⟨value, well⟩ | ⟨error, fails, ill⟩
  · exact iff_of_true value well
  · refine iff_of_false ?_ ill.not_isWellFormedAtom
    rintro ⟨value, atom⟩
    rw [fails] at atom
    cases atom

/-- **The error of a token that stands for nothing says how it is not well formed.** -/
theorem ofAtom_error_iff (token : String) (error : Error) :
    Value.ofAtom token = .error error ↔ IsIllFormedAtom token error := by
  rcases ofAtom_cases_wellFormed token with ⟨⟨value, atom⟩, well⟩ | ⟨error', fails, ill⟩
  · refine iff_of_false ?_ fun ill => ill.not_isWellFormedAtom well
    rw [atom]
    nofun
  · constructor
    · intro atom
      rw [fails] at atom
      cases atom
      exact ill
    · intro ill'
      -- A token that starts with a quote has not the shape of a number, so the errors agree.
      have unquoted : Numeral.IsNumberShaped token.toList → token.toList.head? ≠ some '"' :=
        fun shaped => Numeral.head?_ne_quote_of_claimsNumber ((Numeral.claimsNumber_iff _).2 shaped)
      rw [fails]
      cases ill with
      | number shaped _ =>
        cases ill' with
        | number _ _ => rfl
        | string quoted _ => exact absurd quoted (unquoted shaped)
      | string quoted _ =>
        cases ill' with
        | number shaped _ => exact absurd quoted (unquoted shaped)
        | string _ _ => rfl

end Lisp
