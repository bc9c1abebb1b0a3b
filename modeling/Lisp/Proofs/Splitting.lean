import Mathlib.Data.List.TakeWhile
import Lisp.Atom
import Lisp.Token

/-!
# Splitting piece by piece

A lexeme goes on as far as it can, so what it is depends on the text behind it.
Where it has to stop, whatever follows may be cut off and split by itself
(`split_append`): a comment stops at the end of its line, a token at a character
that stands inside no atom, and a literal at its closing quote.

A token found anywhere is a token alone (`isToken_of_mem`), and a text that is its
own only token is one lexeme (`tokenize_eq_self_iff`).
-/

set_option autoImplicit false

namespace Lisp

/-- A token that, if it is a string literal, has its closing quote. -/
def IsClosed (text : List Char) : Prop :=
  text.head? = some '"' → isCompleteLiteral text = true

/-- A text that is one token and nothing else. -/
def IsToken (text : List Char) : Prop :=
  Lexeme.split text = [.token text]

namespace Lexeme

/-- Whether a lexeme cannot go on into the text behind it. -/
def StopsAt (after : List Char) : Lexeme → Prop
  | .separator _ => True
  | .comment _ => ∀ c ∈ after.head?, isOnLine c = false
  | .token _ => ∀ c ∈ after.head?, isAtomChar c = false

/-! ## Runs and literals -/

/-- A run of characters of one class ends where it did when the text behind starts
with another character. -/
theorem run_append {keep : Char → Bool} (text after : List Char)
    (stops : text.dropWhile keep = [] → ∀ c ∈ after.head?, keep c = false) :
    (text ++ after).takeWhile keep = text.takeWhile keep ∧
      (text ++ after).dropWhile keep = text.dropWhile keep ++ after := by
  induction text with
  | nil =>
    cases after with
    | nil => simp
    | cons c after => simp [stops rfl c rfl]
  | cons c text ih =>
    cases kept : keep c with
    | false => simp [kept]
    | true =>
      simp only [List.dropWhile_cons, kept, if_true] at stops
      simpa [kept] using ih stops

theorem literalOnto_taken (before taken text : List Char) :
    literalOnto (taken ++ before) text =
      (before.reverse ++ (literalOnto taken text).1, (literalOnto taken text).2) := by
  fun_induction literalOnto taken text with
  | case1 taken c rest ih => simpa [literalOnto] using ih
  | case2 taken rest => simp [literalOnto]
  | case3 taken => simp [literalOnto]
  | case4 taken c rest noPair noQuote noBackslash ih =>
    rw [literalOnto.eq_4 _ _ _ noPair noQuote noBackslash]
    exact ih
  | case5 taken => simp [literalOnto]

/-- What belongs to a literal and is not known yet, and the text behind it. -/
def literalBody (text : List Char) : List Char × List Char :=
  literalOnto [] text

theorem literalOnto_eq (taken text : List Char) :
    literalOnto taken text = (taken.reverse ++ (literalBody text).1, (literalBody text).2) := by
  simpa [literalBody] using literalOnto_taken taken [] text

@[simp]
theorem literalBody_nil : literalBody [] = ([], []) :=
  rfl

@[simp]
theorem literalBody_quote (rest : List Char) : literalBody ('"' :: rest) = (['"'], rest) := by
  simp [literalBody, literalOnto]

@[simp]
theorem literalBody_pair (c : Char) (rest : List Char) :
    literalBody ('\\' :: c :: rest) =
      ('\\' :: c :: (literalBody rest).1, (literalBody rest).2) := by
  simp [literalBody, literalOnto, literalOnto_eq [c, '\\']]

@[simp]
theorem literalBody_backslash : literalBody ['\\'] = ([], ['\\']) := by
  simp [literalBody, literalOnto]

theorem literalBody_cons {c : Char} (rest : List Char) (noQuote : c ≠ '"')
    (noBackslash : c ≠ '\\') :
    literalBody (c :: rest) = (c :: (literalBody rest).1, (literalBody rest).2) := by
  simp [literalBody, literalOnto, literalOnto_eq [c], noBackslash]

/-- Text behind an opening quote, taken apart as a literal reads it: a backslash with
the character behind it, a closing quote, or a character that stands for itself. -/
@[elab_as_elim]
theorem literal_induction {motive : List Char → Prop} (nil : motive [])
    (backslash : motive ['\\'])
    (pair : ∀ c rest, motive rest → motive ('\\' :: c :: rest))
    (quote : ∀ rest, motive ('"' :: rest))
    (plain : ∀ c rest, c ≠ '"' → c ≠ '\\' → motive rest → motive (c :: rest))
    (text : List Char) : motive text := by
  induction text using closesAtEnd.induct with
  | case1 c rest ih => exact pair c rest ih
  | case2 => exact quote []
  | case3 rest _ => exact quote rest
  | case4 => exact backslash
  | case5 c rest noPair lone noQuote noBackslash ih =>
    refine plain c rest ?_ ?_ ih
    · rintro rfl
      exact noQuote rfl
    · rintro rfl
      cases rest with
      | nil => exact noBackslash rfl rfl
      | cons d rest => exact noPair d rest rfl rfl
  | case6 => exact nil

@[simp]
theorem closesAtEnd_quote (rest : List Char) : closesAtEnd ('"' :: rest) = rest.isEmpty := by
  cases rest <;> simp [closesAtEnd]

theorem closesAtEnd_cons {c : Char} (rest : List Char) (noQuote : c ≠ '"')
    (noBackslash : c ≠ '\\') : closesAtEnd (c :: rest) = closesAtEnd rest := by
  simp [closesAtEnd, noQuote, noBackslash]

/-- A literal with its closing quote stays as it is, whatever comes behind. -/
theorem literalBody_append (text after : List Char)
    (closed : closesAtEnd (literalBody text).1 = true) :
    literalBody (text ++ after) = ((literalBody text).1, (literalBody text).2 ++ after) := by
  induction text using literal_induction with
  | nil => simp [closesAtEnd] at closed
  | backslash => simp [closesAtEnd] at closed
  | pair c rest ih =>
    simp only [literalBody_pair, closesAtEnd] at closed
    simp [ih closed]
  | quote rest => simp
  | plain c rest noQuote noBackslash ih =>
    rw [literalBody_cons rest noQuote noBackslash] at closed ⊢
    rw [closesAtEnd_cons _ noQuote noBackslash] at closed
    rw [List.cons_append, literalBody_cons _ noQuote noBackslash, ih closed]

/-- Alone, the body of a literal is the same body. -/
theorem literalBody_self (text : List Char) :
    literalBody (literalBody text).1 = ((literalBody text).1, []) := by
  induction text using literal_induction with
  | nil => simp
  | backslash => simp
  | pair c rest ih => simp [ih]
  | quote rest => simp
  | plain c rest noQuote noBackslash ih =>
    rw [literalBody_cons rest noQuote noBackslash]
    dsimp only
    rw [literalBody_cons _ noQuote noBackslash, ih]

/-! ## The first lexeme -/

theorem first_separator {c : Char} (separates : isSeparator c = true) (rest : List Char) :
    first c rest = (.separator c, rest) := by
  simp [first, separates]

theorem first_comment (rest : List Char) :
    first ';' rest =
      (.comment (';' :: rest.takeWhile isOnLine), rest.dropWhile isOnLine) := by
  have : isSeparator ';' = false := by decide
  simp [first, this]

theorem first_literal (rest : List Char) :
    first '"' rest = (.token ('"' :: (literalBody rest).1), (literalBody rest).2) := by
  have : isSeparator '"' = false := by decide
  simp [first, this, literalOnto_eq ['"']]

theorem first_splice (rest : List Char) : first '~' ('@' :: rest) = (.token ['~', '@'], rest) := by
  have : isSeparator '~' = false := by decide
  simp [first, this]

theorem first_structural {c : Char} (structural : isStructural c = true) {rest : List Char}
    (noSplice : c = '~' → rest.head? ≠ some '@') : first c rest = (.token [c], rest) := by
  have notSeparator : isSeparator c = false := by
    simp [isStructural] at structural
    rcases structural with rfl | rfl | rfl | rfl | rfl | rfl | rfl | rfl | rfl | rfl | rfl <;> decide
  have noComment : c ≠ ';' := by
    rintro rfl
    exact absurd structural (by decide)
  have noQuote : c ≠ '"' := by
    rintro rfl
    exact absurd structural (by decide)
  have : (c = '~' && rest.head? == some '@') = false := by simpa using noSplice
  simp [first, notSeparator, noComment, noQuote, this, structural]

/-- Atoms start with an atom character that is no structural one. -/
theorem first_atom {c : Char} (atom : isAtomChar c = true) (plain : isStructural c = false)
    (rest : List Char) :
    first c rest = (.token (c :: rest.takeWhile isAtomChar), rest.dropWhile isAtomChar) := by
  have notSeparator : isSeparator c = false := by
    simp [isAtomChar, isSeparator] at atom ⊢
    simp [atom]
  have noComment : c ≠ ';' := by
    rintro rfl
    exact absurd atom (by decide)
  have noQuote : c ≠ '"' := by
    rintro rfl
    exact absurd atom (by decide)
  have noSplice : c ≠ '~' := by
    rintro rfl
    exact absurd plain (by decide)
  simp [first, notSeparator, noComment, noQuote, noSplice, plain]

/-- The kinds of first lexemes. -/
@[elab_as_elim]
theorem first_cases {motive : Char → List Char → Prop}
    (separator : ∀ c rest, isSeparator c = true → motive c rest)
    (comment : ∀ rest, motive ';' rest)
    (literal : ∀ rest, motive '"' rest)
    (splice : ∀ rest, motive '~' ('@' :: rest))
    (structural : ∀ c rest, isStructural c = true → (c = '~' → rest.head? ≠ some '@') →
      motive c rest)
    (atom : ∀ c rest, isAtomChar c = true → isStructural c = false → motive c rest)
    (c : Char) (rest : List Char) : motive c rest := by
  by_cases separates : isSeparator c = true
  · exact separator c rest separates
  by_cases isComment : c = ';'
  · exact isComment ▸ comment rest
  by_cases isQuote : c = '"'
  · exact isQuote ▸ literal rest
  by_cases isSplice : c = '~' ∧ rest.head? = some '@'
  · obtain ⟨rfl, head⟩ := isSplice
    obtain ⟨rest, rfl⟩ := List.head?_eq_some_iff.1 head
    exact splice rest
  by_cases isPlain : isStructural c = true
  · exact structural c rest isPlain fun tilde head => isSplice ⟨tilde, head⟩
  · refine atom c rest ?_ (by simpa using isPlain)
    simp [isSeparator, isStructural] at separates isPlain
    simp [isAtomChar, separates, isPlain, isComment, isQuote]

/-- **A first lexeme that stops leaves the text behind it alone.** -/
theorem first_append (c : Char) (rest after : List Char)
    (closed : ∀ text, (first c rest).1 = .token text → IsClosed text)
    (stops : (first c rest).2 = [] → (first c rest).1.StopsAt after) :
    first c (rest ++ after) = ((first c rest).1, (first c rest).2 ++ after) := by
  induction c, rest using first_cases with
  | separator c rest separates => rw [first_separator separates, first_separator separates]
  | comment rest =>
    simp only [first_comment] at stops ⊢
    have run := run_append rest after stops
    rw [run.1, run.2]
  | literal rest =>
    have complete := closed _ (by rw [first_literal]) rfl
    rw [first_literal, first_literal, literalBody_append _ _ complete]
  | splice rest => rw [first_splice, List.cons_append, first_splice]
  | structural c rest structural noSplice =>
    rw [first_structural structural noSplice] at stops ⊢
    refine first_structural structural fun tilde head => ?_
    cases rest with
    | nil =>
      have : isAtomChar '@' = false := stops rfl '@' (by simpa using head)
      exact absurd this (by decide)
    | cons d rest => exact noSplice tilde head
  | atom c rest atom plain =>
    simp only [first_atom atom plain] at stops ⊢
    have run := run_append rest after stops
    rw [run.1, run.2]

/-- A first lexeme that is a token is one alone. -/
theorem first_alone {c : Char} {rest text : List Char} (token : (first c rest).1 = .token text) :
    ∃ tail, text = c :: tail ∧ first c tail = (.token text, []) := by
  induction c, rest using first_cases with
  | separator c rest separates =>
    rw [first_separator separates] at token
    cases token
  | comment rest =>
    rw [first_comment] at token
    cases token
  | literal rest =>
    rw [first_literal] at token
    cases token
    exact ⟨_, rfl, by rw [first_literal, literalBody_self]⟩
  | splice rest =>
    rw [first_splice] at token
    cases token
    exact ⟨_, rfl, first_splice []⟩
  | structural c rest structural noSplice =>
    rw [first_structural structural noSplice] at token
    cases token
    exact ⟨_, rfl, first_structural structural (by simp)⟩
  | atom c rest atom plain =>
    rw [first_atom atom plain] at token
    cases token
    refine ⟨_, rfl, ?_⟩
    rw [first_atom atom plain, List.takeWhile_takeWhile]
    simp [List.dropWhile_eq_nil_iff]
    exact fun d member => List.mem_takeWhile_imp member

/-! ## All lexemes -/

/-- **Where the last lexeme stops, a text may be cut and split piece by piece.** -/
theorem split_append {text after : List Char}
    (closed : ∀ token, .token token ∈ split text → IsClosed token)
    (stops : ∀ lexeme ∈ (split text).getLast?, lexeme.StopsAt after) :
    split (text ++ after) = split text ++ split after := by
  induction size : text.length using Nat.strongRecOn generalizing text with
  | ind size ih =>
    cases text with
    | nil => simp
    | cons c rest =>
      have shorter := length_first_le c rest
      rw [split_cons] at closed stops ⊢
      have cut : first c (rest ++ after) = ((first c rest).1, (first c rest).2 ++ after) := by
        refine first_append c rest after (fun token same => closed token (by simp [same])) ?_
        intro empty
        exact stops _ (by simp [empty])
      rw [List.cons_append, split_cons, cut, List.cons_append]
      congr 1
      refine ih _ (by simp_all; omega) (fun token member => closed token (by simp [member])) ?_ rfl
      intro lexeme last
      refine stops lexeme ?_
      rw [List.getLast?_cons]
      simp_all

/-- **A token found in a text is a token alone.** -/
theorem isToken_of_mem {token text : List Char} (member : .token token ∈ split text) :
    IsToken token := by
  induction size : text.length using Nat.strongRecOn generalizing text with
  | ind size ih =>
    cases text with
    | nil => simp at member
    | cons c rest =>
      have shorter := length_first_le c rest
      rw [split_cons, List.mem_cons] at member
      rcases member with same | member
      · obtain ⟨tail, rfl, alone⟩ := first_alone same.symm
        rw [IsToken, split_cons, alone, split_nil]
      · exact ih _ (by simp_all; omega) member rfl

/-- A run of atom characters that starts with no structural one is a token. -/
theorem isToken_atom {c : Char} {rest : List Char} (plain : isStructural c = false)
    (atom : (c :: rest).all isAtomChar = true) : IsToken (c :: rest) := by
  rw [List.all_eq_true] at atom
  have whole : rest.takeWhile isAtomChar = rest := by
    rw [List.takeWhile_eq_self_iff]
    exact fun d member => atom d (by simp [member])
  have left : rest.dropWhile isAtomChar = [] := by
    rw [List.dropWhile_eq_nil_iff]
    exact fun d member => atom d (by simp [member])
  rw [IsToken, split_cons, first_atom (atom c (by simp)) plain, whole, left, split_nil]

end Lexeme

/-! ## Tokens of a text -/

/-- The tokens of a text are tokens by themselves. -/
theorem isToken_of_mem_tokenize {token source : String} (member : token ∈ tokenize source) :
    IsToken token.toList := by
  obtain ⟨lexeme, inside, same⟩ := List.mem_filterMap.1 member
  cases lexeme with
  | separator c => cases same
  | comment text => cases same
  | token text =>
    have text_eq : text = token.toList := by
      simp only [Lexeme.token?, Option.some.injEq] at same
      rw [← same, String.toList_ofList]
    exact text_eq ▸ Lexeme.isToken_of_mem inside

/-- A text that is its own only token is a token, with nothing around it. -/
theorem tokenize_eq_self_iff (name : String) : tokenize name = [name] ↔ IsToken name.toList := by
  constructor
  · intro alone
    have member : name ∈ tokenize name := by rw [alone]; exact List.mem_singleton_self name
    exact isToken_of_mem_tokenize member
  · intro token
    rw [tokenize, token]
    simp [Lexeme.token?]

/-- A closed token is split off a text that goes on with no atom character. -/
theorem IsToken.split_append {token after : List Char} (isToken : IsToken token)
    (closed : IsClosed token) (stops : ∀ c ∈ after.head?, Lexeme.isAtomChar c = false) :
    Lexeme.split (token ++ after) = .token token :: Lexeme.split after := by
  have cut := @Lexeme.split_append token after
  rw [isToken] at cut
  refine cut ?_ ?_
  · intro other member
    cases List.mem_singleton.1 member
    exact closed
  · intro lexeme last
    cases last
    exact stops

end Lisp
