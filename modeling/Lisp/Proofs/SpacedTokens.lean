import Lisp.Proofs.LexicalGrammar
import Lisp.Proofs.WrappedText

/-!
# Tokens with spaces between them

A token that is found in a text is found again when it stands alone, and also when other tokens
stand beside it with spaces between them, as long as no literal before it was left open
(`tokenize_spaced_iff`).  So the tokens of a text, written with single spaces between them,
are a normal form of the text: comments are gone, whatever separated the tokens is one space,
and it is read as the text was (`tokens_are_canonical`).

A literal left open is the one token that does not end where it does: it takes in the space
behind it, and all the rest.
-/

set_option autoImplicit false

namespace Lisp

/-- Tokens with single spaces between them. -/
def spaced (tokens : List String) : String :=
  " ".intercalate tokens

@[simp]
theorem spaced_nil : spaced [] = "" :=
  String.intercalate_nil

@[simp]
theorem spaced_singleton (token : String) : spaced [token] = token :=
  String.intercalate_singleton

theorem toList_spaced_cons (token : String) {others : List String} (some_more : others ≠ []) :
    (spaced (token :: others)).toList = token.toList ++ ' ' :: (spaced others).toList := by
  obtain ⟨second, further, rfl⟩ := List.exists_cons_of_ne_nil some_more
  simp [spaced, String.intercalate_cons_cons]

/-- A literal left open does not end where more is written behind it. -/
theorem Lexeme.literalBody_ne_of_open {body behind : List Char} (opened : closesAtEnd body = false)
    (goes_on : ¬ (behind = [] ∨ behind = ['\\'])) : (literalBody (body ++ behind)).1 ≠ body := by
  intro same
  have whole := literalOnto_text [] (body ++ behind)
  have stands := standsBefore_first '"' (body ++ behind)
  rw [← literalBody, same] at whole
  rw [first_literal, same, List.append_cancel_left whole] at stands
  generalize text : '"' :: body = literal at stands
  cases stands with
  | splice => cases text
  | structural structural _ =>
    cases text
    cases structural
  | literal literal =>
    have closes := (isCompleteLiteral_iff _).2 literal
    rw [← text, isCompleteLiteral, opened] at closes
    cases closes
  | unclosed _ left => exact goes_on left
  | atom _ atom _ =>
    cases text
    cases atom '"' List.mem_cons_self

section Cons

variable {token : String} {others : List String}

/-- A closed token stays apart from those behind it. -/
theorem tokenize_spaced_cons (isToken : IsToken token.toList) (closed : IsClosed token.toList)
    (some_more : others ≠ []) :
    tokenize (spaced (token :: others)) = token :: tokenize (spaced others) := by
  have stops : ∀ c ∈ (' ' :: (spaced others).toList).head?, Lexeme.isAtomChar c = false := by
    intro c space
    cases space
    decide
  rw [tokenize_eq, toList_spaced_cons token some_more, isToken.tokensOf_append closed stops,
    tokensOf_space, tokenize_eq]

/-- **A literal left open is not found again in front of other tokens.** -/
theorem tokenize_spaced_ne_of_open (notClosed : ¬ IsClosed token.toList) (some_more : others ≠ [])
    (further : List String) : tokenize (spaced (token :: others)) ≠ token :: further := by
  obtain ⟨quoted, incomplete⟩ := Classical.not_imp.1 notClosed
  obtain ⟨body, text⟩ := List.head?_eq_some_iff.1 quoted
  have opened : closesAtEnd body = false := by simpa [text, isCompleteLiteral] using incomplete
  intro found
  rw [tokenize_eq, toList_spaced_cons token some_more, text, List.cons_append, tokensOf_cons,
    Lexeme.first_literal] at found
  have first := congrArg String.toList (List.cons.inj found).1
  rw [String.toList_ofList, text] at first
  exact Lexeme.literalBody_ne_of_open opened (by simp) (List.cons.inj first).2

end Cons

theorem tokenize_spaced_iff_of_isToken {tokens : List String}
    (each : ∀ token ∈ tokens, IsToken token.toList) :
    tokenize (spaced tokens) = tokens ↔ ∀ token ∈ tokens.dropLast, IsClosed token.toList := by
  induction tokens with
  | nil => simp [tokenize_eq]
  | cons token others ih =>
    obtain ⟨isToken, further⟩ := List.forall_mem_cons.1 each
    by_cases last : others = []
    · subst last
      simp [(tokenize_eq_self_iff token).2 isToken]
    · rw [List.dropLast_cons_of_ne_nil last, List.forall_mem_cons, ← ih further]
      by_cases closed : IsClosed token.toList
      · rw [tokenize_spaced_cons isToken closed last, List.cons_inj_right, and_iff_right closed]
      · exact iff_of_false (tokenize_spaced_ne_of_open closed last others)
          fun both => closed both.1

/-- **Tokens are found again with spaces between them just when each is found again alone, and
none but the last is a literal left open.** -/
theorem tokenize_spaced_iff (tokens : List String) :
    tokenize (spaced tokens) = tokens ↔
      (∀ token ∈ tokens, tokenize token = [token]) ∧
        ∀ token ∈ tokens.dropLast, IsClosed token.toList := by
  constructor
  · intro same
    have each : ∀ token ∈ tokens, IsToken token.toList := by
      intro token member
      rw [← same] at member
      exact isToken_of_mem_tokenize member
    exact ⟨fun token member => (tokenize_eq_self_iff token).2 (each token member),
      (tokenize_spaced_iff_of_isToken each).1 same⟩
  · rintro ⟨alone, closed⟩
    have each : ∀ token ∈ tokens, IsToken token.toList :=
      fun token member => (tokenize_eq_self_iff token).1 (alone token member)
    exact (tokenize_spaced_iff_of_isToken each).2 closed

/-- **Tokens are canonical.**  A token of a text is the only token of itself.  Tokens with single
spaces between them are found again just when each is the only token of itself and none but the
last is a literal left open.  So a text without a literal left open is read, in any room, as its
tokens with single spaces between them: neither comments nor the separators matter. -/
theorem tokens_are_canonical :
    (∀ source, ∀ token ∈ tokenize source, tokenize token = [token]) ∧
    (∀ tokens, tokenize (spaced tokens) = tokens ↔
      (∀ token ∈ tokens, tokenize token = [token]) ∧
        ∀ token ∈ tokens.dropLast, IsClosed token.toList) ∧
    ∀ source, (∀ token ∈ tokenize source, IsClosed token.toList) →
      tokenize (spaced (tokenize source)) = tokenize source ∧
        ∀ room, readSource room (spaced (tokenize source)) = readSource room source := by
  have alone : ∀ source, ∀ token ∈ tokenize source, tokenize token = [token] :=
    fun source token member => (tokenize_eq_self_iff token).2 (isToken_of_mem_tokenize member)
  refine ⟨alone, tokenize_spaced_iff, fun source closed => ?_⟩
  have same : tokenize (spaced (tokenize source)) = tokenize source :=
    (tokenize_spaced_iff _).2
      ⟨alone source, fun token member => closed token (List.dropLast_subset _ member)⟩
  refine ⟨same, fun room => ?_⟩
  rw [readSource, readSource, same]

/-- A text with comments, with tildes and an `@`, and with a string that holds what elsewhere
would be a separator and a comment. -/
theorem spaced_text_read_alike :
    let source := "(~@ ~,@;c\n\"a ;b\")"
    tokenize source = ["(", "~@", "~", "@", "\"a ;b\"", ")"] ∧
      tokenize "~@" = ["~@"] ∧
      (∀ token ∈ tokenize source, IsClosed token.toList) ∧
      ∀ room, readSource room "( ~@ ~ @ \"a ;b\" )" = readSource room source := by
  intro source
  have tokens : tokenize source = ["(", "~@", "~", "@", "\"a ;b\"", ")"] := by decide +kernel
  have closed : ∀ token ∈ tokenize source, IsClosed token.toList := by
    rw [tokens]
    simp only [List.forall_mem_cons, IsClosed]
    decide
  have line : spaced (tokenize source) = "( ~@ ~ @ \"a ;b\" )" := by
    rw [tokens]
    decide
  obtain ⟨alone, _, alike⟩ := tokens_are_canonical
  have read := (alike source closed).2
  rw [line] at read
  exact ⟨tokens, alone source "~@" (by simp [tokens]), closed, read⟩

end Lisp
