import Lisp.Text.Blank

/-!
# Lexemes and tokens

A text falls into lexemes: separators, comments and tokens, in order and with
nothing left out.  A token is `~@`, one structural character, a string literal,
or a longest run of atom characters.  A literal that is never closed runs to the
end of the text; a backslash that ends the text pairs with nothing, so it stays
outside the literal and is a token of its own.

Splitting never fails.  What the tokens mean, and whether they are well formed,
is left to the reader.
-/

set_option autoImplicit false

namespace Lisp

/-- A piece of a text. -/
inductive Lexeme where
  | separator (c : Char)
  | comment (text : List Char)
  | token (text : List Char)
  deriving DecidableEq, Repr

namespace Lexeme

/-- The characters of a lexeme. -/
def text : Lexeme → List Char
  | .separator c => [c]
  | .comment text => text
  | .token text => text

/-- The token that a lexeme is, if it is one. -/
def token? : Lexeme → Option String
  | .token text => some (String.ofList text)
  | _ => none

/-! ## Classes of characters -/

/-- Blanks and commas separate tokens. -/
def isSeparator (c : Char) : Bool :=
  Text.isBlank c || c == ','

/-- The characters that are tokens by themselves. -/
def isStructural (c : Char) : Bool :=
  ['[', ']', '{', '}', '(', ')', '\'', '`', '~', '^', '@'].contains c

/-- The characters that numbers and names are made of.  Of the structural
characters `~`, `^` and `@` may stand inside an atom, though none starts one. -/
def isAtomChar (c : Char) : Bool :=
  !Text.isBlank c &&
    !(['[', ']', '{', '}', '(', '\'', '"', '`', ',', ';', ')'].contains c)

/-- Whether a character stands on the line of a comment. -/
def isOnLine (c : Char) : Bool :=
  c != '\n'

/-! ## Splitting -/

/-- The rest of a string literal, closing quote included, and the text behind
it; `taken` holds in reverse what is known to belong to the literal. -/
def literalOnto (taken : List Char) : List Char → List Char × List Char
  | '\\' :: c :: rest => literalOnto (c :: '\\' :: taken) rest
  | '"' :: rest => (('"' :: taken).reverse, rest)
  | ['\\'] => (taken.reverse, ['\\'])
  | c :: rest => literalOnto (c :: taken) rest
  | [] => (taken.reverse, [])

/-- The first lexeme of the text `c :: rest`, and the text behind it. -/
def first (c : Char) (rest : List Char) : Lexeme × List Char :=
  if isSeparator c then (.separator c, rest)
  else if c = ';' then
    (.comment (c :: rest.takeWhile isOnLine), rest.dropWhile isOnLine)
  else if c = '"' then
    let literal := literalOnto ['"'] rest
    (.token literal.1, literal.2)
  else if c = '~' && rest.head? == some '@' then (.token ['~', '@'], rest.tail)
  else if isStructural c then (.token [c], rest)
  else (.token (c :: rest.takeWhile isAtomChar), rest.dropWhile isAtomChar)

theorem length_literalOnto_le (taken text : List Char) :
    (literalOnto taken text).2.length ≤ text.length := by
  fun_induction literalOnto taken text <;> simp_all <;> omega

theorem length_dropWhile_le (keep : Char → Bool) (text : List Char) :
    (text.dropWhile keep).length ≤ text.length :=
  (List.dropWhile_sublist keep).length_le

/-- What follows the first lexeme is shorter than the text. -/
theorem length_first_le (c : Char) (rest : List Char) :
    (first c rest).2.length ≤ rest.length := by
  unfold first
  repeat' split
  all_goals simp [length_literalOnto_le, length_dropWhile_le]

/-- The lexemes of a text behind those found already, which are held in reverse. -/
def splitOnto (found : List Lexeme) : List Char → List Lexeme
  | [] => found.reverse
  | c :: rest =>
    let step := first c rest
    splitOnto (step.1 :: found) step.2
termination_by text => text.length
decreasing_by
  have shorter := length_first_le c rest
  simp only [List.length_cons]
  omega

/-- The lexemes of a text. -/
def split (text : List Char) : List Lexeme :=
  splitOnto [] text

/-! ## Nothing is lost -/

/-- A string literal and the text behind it are the whole text. -/
theorem literalOnto_text (taken text : List Char) :
    (literalOnto taken text).1 ++ (literalOnto taken text).2 = taken.reverse ++ text := by
  fun_induction literalOnto taken text <;> simp_all

/-- The first lexeme and the text behind it are the whole text. -/
theorem text_first (c : Char) (rest : List Char) :
    (first c rest).1.text ++ (first c rest).2 = c :: rest := by
  unfold first
  split
  · rfl
  split
  · simp [text, List.takeWhile_append_dropWhile]
  split
  · next quote => simpa [text, quote] using literalOnto_text ['"'] rest
  split
  · next splice =>
    obtain ⟨rfl, tail⟩ : c = '~' ∧ rest.head? = some '@' := by simpa using splice
    cases rest with
    | nil => simp at tail
    | cons second rest => simp_all [text]
  split
  · rfl
  · simp [text, List.takeWhile_append_dropWhile]

theorem splitOnto_append (before found : List Lexeme) (text : List Char) :
    splitOnto (found ++ before) text = before.reverse ++ splitOnto found text := by
  fun_induction splitOnto found text with
  | case1 found => simp [splitOnto]
  | case2 found c rest step ih => rw [splitOnto]; exact ih

/-- The lexemes of a text are its first one and those of the text behind it. -/
theorem split_cons (c : Char) (rest : List Char) :
    split (c :: rest) = (first c rest).1 :: split (first c rest).2 := by
  simpa [split, splitOnto] using splitOnto_append [(first c rest).1] [] (first c rest).2

@[simp]
theorem split_nil : split [] = [] := by
  simp [split, splitOnto]

/-- Splitting loses nothing. -/
theorem flatMap_text_split (text : List Char) : (split text).flatMap Lexeme.text = text := by
  induction size : text.length using Nat.strongRecOn generalizing text with
  | ind size ih =>
    cases text with
    | nil => simp
    | cons c rest =>
      have shorter := length_first_le c rest
      rw [split_cons, List.flatMap_cons, ih _ (by simp_all; omega) _ rfl, text_first]

end Lexeme

/-- The tokens of a source text, in order. -/
def tokenize (source : String) : List String :=
  (Lexeme.split source.toList).filterMap Lexeme.token?

end Lisp
