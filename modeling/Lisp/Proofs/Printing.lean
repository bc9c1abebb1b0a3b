import Lisp.Proofs.Atoms
import Lisp.Proofs.Reading

/-!
# Texts that read as one value

A text reads as a value when its tokens are the same wherever it stands, as long as
what follows does not run into it, and when these tokens complete the value and
nothing more (`ReadsAs`).  Atoms read so, and a list in parentheses does when its
items do, however deep they nest (`ReadsAs.list`).

Read by itself, such a text gives its value and is used up (`ReadsAs.readSource_eq`).
-/

set_option autoImplicit false

namespace Lisp

/-- The tokens of a text. -/
def tokensOf (text : List Char) : List String :=
  (Lexeme.split text).filterMap Lexeme.token?

theorem tokenize_eq (source : String) : tokenize source = tokensOf source.toList :=
  rfl

@[simp]
theorem tokensOf_nil : tokensOf [] = [] := by
  simp [tokensOf]

theorem tokensOf_separator {c : Char} (separates : Lexeme.isSeparator c = true)
    (rest : List Char) : tokensOf (c :: rest) = tokensOf rest := by
  rw [tokensOf, Lexeme.split_cons, Lexeme.first_separator separates]
  rfl

@[simp]
theorem tokensOf_space (rest : List Char) : tokensOf (' ' :: rest) = tokensOf rest :=
  tokensOf_separator (by decide) rest

@[simp]
theorem tokensOf_open (rest : List Char) : tokensOf ('(' :: rest) = "(" :: tokensOf rest := by
  rw [tokensOf, Lexeme.split_cons, Lexeme.first_structural (by decide) (by simp)]
  rfl

@[simp]
theorem tokensOf_close (rest : List Char) : tokensOf (')' :: rest) = ")" :: tokensOf rest := by
  rw [tokensOf, Lexeme.split_cons, Lexeme.first_structural (by decide) (by simp)]
  rfl

/-- A closed token comes first, and then the tokens of the text behind it. -/
theorem IsToken.tokensOf_append {token : String} {after : List Char}
    (isToken : IsToken token.toList) (closed : IsClosed token.toList)
    (stops : ∀ c ∈ after.head?, Lexeme.isAtomChar c = false) :
    tokensOf (token.toList ++ after) = token :: tokensOf after := by
  rw [tokensOf, isToken.split_append closed stops]
  simp [Lexeme.token?, tokensOf]

/-! ## Texts and their values -/

/-- Whether a text has the same tokens wherever it stands before a character that is
in no atom, and these tokens complete one value. -/
def ReadsAs (text : List Char) (value : Value) : Prop :=
  ∃ tokens,
    (∀ after : List Char, (∀ c ∈ after.head?, Lexeme.isAtomChar c = false) →
      tokensOf (text ++ after) = tokens ++ tokensOf after) ∧
    ∀ openLists rest,
      readInto .unlimited openLists (tokens ++ rest) = readOn .unlimited openLists value rest

/-- A closed token that is an atom reads as its value. -/
theorem ReadsAs.atom {token : String} {value : Value} (isToken : IsToken token.toList)
    (closed : IsClosed token.toList) (notOpen : token ≠ "(") (notClose : token ≠ ")")
    (atom : Value.ofAtom token = .ok value) : ReadsAs token.toList value := by
  refine ⟨[token], fun after stops => ?_, fun openLists rest =>
    readInto_atom openLists rest notOpen notClose atom⟩
  exact isToken.tokensOf_append closed stops

/-- The items of a list, with a space between each and the next, read one by one. -/
theorem ReadsAs.items {texts : List (List Char)} {values : List Value}
    (items : List.Forall₂ ReadsAs texts values) :
    ∃ tokens,
      (∀ after : List Char, (∀ c ∈ after.head?, Lexeme.isAtomChar c = false) →
        tokensOf ([' '].intercalate texts ++ after) = tokens ++ tokensOf after) ∧
      ∀ item openLists rest,
        readInto .unlimited (item :: openLists) (tokens ++ rest) =
          readInto .unlimited ((values.reverse ++ item) :: openLists) rest := by
  induction items with
  | nil => exact ⟨[], by simp, by simp⟩
  | @cons text value texts values first others ih =>
    obtain ⟨tokens, splits, reads⟩ := first
    obtain ⟨others_tokens, others_splits, others_reads⟩ := ih
    refine ⟨tokens ++ others_tokens, fun after stops => ?_, fun item openLists rest => ?_⟩
    · cases others with
      | nil =>
        have := others_splits [] (by simp)
        simp_all
      | cons second further =>
        rw [List.intercalate_cons_cons, List.append_assoc, List.append_assoc, splits _ (by simp; decide),
          List.singleton_append, tokensOf_space, others_splits after stops, List.append_assoc]
    · rw [List.append_assoc, reads, readOn, others_reads]
      simp

/-- **A list in parentheses reads as the list of what its items read as.** -/
theorem ReadsAs.list {texts : List (List Char)} {values : List Value}
    (items : List.Forall₂ ReadsAs texts values) :
    ReadsAs ('(' :: ([' '].intercalate texts ++ [')'])) (.list values) := by
  obtain ⟨tokens, splits, reads⟩ := ReadsAs.items items
  refine ⟨"(" :: (tokens ++ [")"]), fun after stops => ?_, fun openLists rest => ?_⟩
  · simp only [List.cons_append, List.append_assoc, tokensOf_open, List.nil_append]
    rw [splits _ (by simp; decide), tokensOf_close]
  · simp only [List.cons_append, List.append_assoc, List.nil_append]
    rw [readInto_open _ _ rfl, reads, readInto_close]
    simp [Room.leave]

/-! ## Reading a text by itself -/

/-- The tokens of a text that reads as a value, which complete just this value. -/
theorem ReadsAs.readNested_eq {text : String} {value : Value}
    (reads : ReadsAs text.toList value) :
    readNested .unlimited (tokenize text) = ⟨.ok value, []⟩ := by
  obtain ⟨tokens, splits, completes⟩ := reads
  have source : tokenize text = tokens := by
    have := splits [] (by simp)
    simpa [tokenize_eq] using this
  have one := completes [] []
  rw [List.append_nil] at one
  simp [readNested, readForm, source, one, readOn]

/-- A text that reads as a value is one form, and nothing is left of it. -/
theorem ReadsAs.readSource_eq {text : String} {value : Value} (reads : ReadsAs text.toList value) :
    readSource .unlimited text = ⟨[value], none, []⟩ := by
  rw [readSource, readAll, readAllOnto_of_ok reads.readNested_eq, readAllOnto_nil]
  rfl

theorem ReadsAs.readText_eq {text : String} {value : Value} (reads : ReadsAs text.toList value) :
    readText .unlimited text = .ok value := by
  have nonempty := ne_nil_of_readNested reads.readNested_eq
  simp [readText, nonempty, reads.readNested_eq]

end Lisp
