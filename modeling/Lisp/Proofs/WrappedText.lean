import Lisp.Proofs.Printing
import Lisp.Proofs.ReadingInside

/-!
# Texts wrapped into one form

A text is made one form by writing `(do ` before it and a line with `nil)` behind it.
The line ends an atom or a comment that the text may end with, and a string literal
that the text leaves open goes on to the very end: so the tokens of the text stand
inside the list as they stand alone (`inside_tokensOf`).

What the first form of the wrapped text is follows from how the text itself reads
(`readText_wrapped`).
-/

set_option autoImplicit false

namespace Lisp

/-! ## Tokens of a wrapped text -/

namespace Lexeme

/-- A text without quotes and backslashes goes into a literal whole and does not close it. -/
theorem literalBody_plain {text : List Char} (plain : ∀ c ∈ text, c ≠ '"' ∧ c ≠ '\\') :
    literalBody text = (text, []) ∧ closesAtEnd text = false := by
  induction text with
  | nil => exact ⟨rfl, rfl⟩
  | cons c rest ih =>
    obtain ⟨first, others⟩ := List.forall_mem_cons.1 plain
    obtain ⟨body, opened⟩ := ih others
    rw [literalBody_cons rest first.1 first.2, closesAtEnd_cons rest first.1 first.2, body]
    exact ⟨rfl, opened⟩

/-- **A literal that a text leaves open takes in all that is written behind**, if there is
no quote in it; a backslash that ends the text then pairs with the next character. -/
theorem literalBody_append_of_open {text after : List Char} (some_more : after ≠ [])
    (plain : ∀ c ∈ after, c ≠ '"' ∧ c ≠ '\\') (opened : closesAtEnd (literalBody text).1 = false) :
    literalBody (text ++ after) = (text ++ after, []) ∧ closesAtEnd (text ++ after) = false := by
  induction text using literal_induction with
  | nil => exact literalBody_plain plain
  | backslash =>
    obtain ⟨c, rest, rfl⟩ := List.exists_cons_of_ne_nil some_more
    obtain ⟨body, opened⟩ := literalBody_plain (List.forall_mem_cons.1 plain).2
    rw [List.cons_append, List.nil_append, literalBody_pair, closesAtEnd, body]
    exact ⟨rfl, opened⟩
  | pair c rest ih =>
    rw [literalBody_pair, closesAtEnd] at opened
    obtain ⟨body, opened⟩ := ih opened
    rw [List.cons_append, List.cons_append, literalBody_pair, closesAtEnd, body]
    exact ⟨rfl, opened⟩
  | quote rest => simp at opened
  | plain c rest noQuote noBackslash ih =>
    rw [literalBody_cons rest noQuote noBackslash, closesAtEnd_cons _ noQuote noBackslash] at opened
    obtain ⟨body, opened⟩ := ih opened
    rw [List.cons_append, literalBody_cons _ noQuote noBackslash,
      closesAtEnd_cons _ noQuote noBackslash, body]
    exact ⟨rfl, opened⟩

/-- A first lexeme that is no closed token is a string literal left open. -/
theorem open_of_not_isClosed {c : Char} {rest text : List Char}
    (token : (first c rest).1 = .token text) (notClosed : ¬ IsClosed text) :
    c = '"' ∧ closesAtEnd (literalBody rest).1 = false := by
  obtain ⟨quoted, incomplete⟩ := Classical.not_imp.1 notClosed
  obtain ⟨tail, rfl, _⟩ := first_alone token
  obtain rfl : c = '"' := by simpa using quoted
  rw [first_literal] at token
  cases token
  exact ⟨rfl, by simpa [isCompleteLiteral] using incomplete⟩

end Lexeme

/-- What is written behind a text to make it one form. -/
def closing : List Char :=
  "\nnil)".toList

theorem tokensOf_closing : tokensOf closing = ["nil", ")"] := by
  have isNil : IsToken "nil".toList := Lexeme.isToken_atom (by decide) (by decide)
  have characters : closing = '\n' :: ("nil".toList ++ [')']) := by simp [closing]
  rw [characters, tokensOf_separator (by decide),
    isNil.tokensOf_append (by simp [IsClosed]) (by simp; decide), tokensOf_close, tokensOf_nil]

theorem tokensOf_cons (c : Char) (rest : List Char) :
    tokensOf (c :: rest) =
      (Lexeme.first c rest).1.token?.toList ++ tokensOf (Lexeme.first c rest).2 := by
  rw [tokensOf, Lexeme.split_cons, List.filterMap_cons]
  cases (Lexeme.first c rest).1.token? <;> rfl

theorem ofAtom_of_open {body : List Char} (opened : closesAtEnd body = false) :
    Value.ofAtom (String.ofList ('"' :: body)) =
      .error (.unbalancedString (String.ofList ('"' :: body))) := by
  rw [Value.ofAtom_literal String.toList_ofList, opened]
  rfl

/-- **The tokens of a text stand inside the list as they stand alone.** -/
theorem inside_tokensOf (text : List Char) : Inside (tokensOf text) (tokensOf (text ++ closing)) := by
  induction size : text.length using Nat.strongRecOn generalizing text with
  | ind size ih =>
    cases text with
    | nil =>
      rw [List.nil_append, tokensOf_closing, tokensOf_nil]
      exact .closing
    | cons c rest =>
      have shorter := Lexeme.length_first_le c rest
      rw [List.cons_append, tokensOf_cons, tokensOf_cons]
      by_cases closed : ∀ token, (Lexeme.first c rest).1 = .token token → IsClosed token
      · have stops : (Lexeme.first c rest).1.StopsAt closing := by
          cases (Lexeme.first c rest).1 with
          | separator _ => trivial
          | comment _ => simp [Lexeme.StopsAt, closing, Lexeme.isOnLine]
          | token _ =>
            rintro c ⟨⟩
            rfl
        have further := ih _ (by simp_all; omega) (Lexeme.first c rest).2 rfl
        rw [Lexeme.first_append c rest closing closed fun _ => stops]
        cases (Lexeme.first c rest).1.token? with
        | none => exact further
        | some token => exact .same token further
      · -- Only a string literal left open does not stop at the line break of the closing.
        obtain ⟨token, isToken, notClosed⟩ : ∃ token, (Lexeme.first c rest).1 = .token token ∧
            ¬ IsClosed token := by simpa using closed
        obtain ⟨rfl, opened⟩ := Lexeme.open_of_not_isClosed isToken notClosed
        have some_more : closing ≠ [] := by simp [closing]
        obtain ⟨body, opened'⟩ :=
          Lexeme.literalBody_append_of_open some_more (by simp [closing]) opened
        rw [Lexeme.first_literal, Lexeme.first_literal, body, tokensOf_nil]
        exact .bad _ (ofAtom_of_open opened) (ofAtom_of_open opened')

/-- A text made one form. -/
def wrapped (text : String) : String :=
  "(do " ++ text ++ "\nnil)"

theorem tokenize_wrapped (text : String) :
    tokenize (wrapped text) = "(" :: "do" :: tokensOf (text.toList ++ closing) := by
  have isDo : IsToken "do".toList := Lexeme.isToken_atom (by decide) (by decide)
  have characters : (wrapped text).toList =
      '(' :: ("do".toList ++ ' ' :: (text.toList ++ closing)) := by
    simp [wrapped, closing, String.toList_append]
  rw [tokenize_eq, characters, tokensOf_open,
    isDo.tokensOf_append (by simp [IsClosed]) (by simp; decide), tokensOf_space]

/-! ## Reading a wrapped text -/

/-- What the first form of a wrapped text is, as seen from how the text reads alone: the
sequence of its forms with nil behind them, the sequence of those before a parenthesis
that closes nothing, or an error of the same kind.  In a room with a limit the text may
nest too deep once it is wrapped. -/
inductive ReadsWrapped (room : Room) (alone : Forms) (first : Except Failure Value) : Prop where
  | tooDeep : room ≠ .unlimited → first = .error (.error .readingTooDeep) →
      ReadsWrapped room alone first
  | complete : alone.failure? = none →
      first = .ok (.list (.symbol "do" :: (alone.forms ++ [.nil]))) → ReadsWrapped room alone first
  | closed : alone.failure? = some (.error .unexpectedClose) →
      first = .ok (.list (.symbol "do" :: alone.forms)) → ReadsWrapped room alone first
  | malformed {error error' : Error} : alone.failure? = some (.error error) →
      error ≠ .unexpectedClose → first = .error (.error error') →
        error'.category.isA .malformed = true → ReadsWrapped room alone first

/-- **The first form of a wrapped text is what the text alone makes it.** -/
theorem readText_wrapped {small large : Room} (atMost : small.AtMost large) (text : String) :
    ReadsWrapped small (readSource large text) (readText small (wrapped text)) := by
  have tokens := tokenize_wrapped text
  rw [readText_eq small (by simp [tokens])]
  have limited := readInto_fails small [] (tokenize (wrapped text)) (.fault .stackExhausted)
  rw [tokens] at limited ⊢
  cases entered : small.enter? Room.reading with
  | none =>
    rw [readInto_open_of_full _ _ entered]
    refine .tooDeep ?_ rfl
    rintro rfl
    cases entered
  | some inner =>
    obtain ⟨_, entered', atMost'⟩ := atMost.enter? entered
    have inside := readAllOnto_inside (inside_tokensOf text.toList)
      (atMost'.trans (Room.atMost_of_enter? entered')) [.symbol "do"] []
    have isDo : Value.ofAtom "do" = .ok (.symbol "do") := rfl
    rw [readInto_open _ _ entered, readInto_atom _ _ (by decide) (by decide) isDo, readOn] at limited ⊢
    cases inside with
    | exhausted fails =>
      rw [List.nil_append] at fails
      refine .tooDeep ?_ (by rw [fails]; rfl)
      rcases limited fails with ⟨_, limited⟩ | ⟨_, impossible, _⟩
      · exact limited
      · cases impossible
    | complete ends reads =>
      rw [List.nil_append] at reads
      refine .complete ends ?_
      rw [reads]
      rfl
    | closed fails reads =>
      rw [List.nil_append] at reads
      refine .closed fails ?_
      rw [reads]
      rfl
    | malformed fails others fails' malformed =>
      rw [List.nil_append] at fails'
      refine .malformed fails others ?_ malformed
      rw [fails']
      rfl

theorem failure?_of_readProgram {room : Room} {text : String} {failure : Failure}
    (unreadable : readProgram room text = .error failure) :
    (readSource room text).failure? = some failure := by
  unfold readProgram at unreadable
  dsimp only at unreadable
  split at unreadable
  · cases unreadable
  · next found =>
    cases unreadable
    exact found

/-- The first form of the wrapped text holds all forms of the text. -/
theorem readText_wrapped_of_readable {text : String} {forms : List Value}
    (accepted : readProgram .unlimited text = .ok forms) :
    readText .unlimited (wrapped text) = .ok (.list (.symbol "do" :: (forms ++ [.nil]))) := by
  have alone : (readSource .unlimited text).failure? = none ∧
      (readSource .unlimited text).forms = forms := by
    rw [readProgram] at accepted
    split at accepted
    · next none => exact ⟨none, Except.ok.inj accepted⟩
    · cases accepted
  have unlimited : Room.unlimited.AtMost .unlimited := trivial
  cases readText_wrapped unlimited text with
  | tooDeep limited => exact absurd rfl limited
  | complete _ first => rw [first, alone.2]
  | closed closes =>
    rw [alone.1] at closes
    cases closes
  | malformed fails =>
    rw [alone.1] at fails
    cases fails

/-- **A text that cannot be read cannot be read wrapped, unless it goes wrong at a parenthesis
that closes nothing; then the wrapped text is the sequence of the forms before that.** -/
theorem readText_wrapped_of_unreadable {small large : Room} (atMost : small.AtMost large)
    {text : String} {error : Error} (unreadable : readProgram large text = .error (.error error))
    (fits : readText small (wrapped text) ≠ .error (.error .readingTooDeep)) :
    (error ≠ .unexpectedClose → ∃ error', error'.category.isA .malformed = true ∧
      readText small (wrapped text) = .error (.error error')) ∧
    (error = .unexpectedClose →
      readText small (wrapped text) = .ok (.list (.symbol "do" :: (readSource large text).forms))) := by
  have fails := failure?_of_readProgram unreadable
  cases readText_wrapped atMost text with
  | tooDeep _ first => exact absurd first fits
  | complete none_fails _ => simp [fails] at none_fails
  | closed closes first =>
    rw [fails] at closes
    cases closes
    exact ⟨fun others => absurd rfl others, fun _ => first⟩
  | malformed stops others first malformed =>
    rw [fails] at stops
    cases stops
    exact ⟨fun _ => ⟨_, malformed, first⟩, fun closes => absurd closes others⟩

end Lisp
