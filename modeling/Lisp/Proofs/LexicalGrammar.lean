import Lisp.Proofs.AtomGrammar

/-!
# The grammar of lexemes

What a lexeme may be depends on the text behind it: a comment ends before a line break, an
atom before a character that stands in no atom, and a literal without its closing quote only
where the text is over, but for one backslash (`Lexeme.StandsBefore`).  A text falls into
lexemes when each of them may stand before what follows it, and nothing is left out
(`FallsInto`).

Of the lexemes with which a text may begin there is just one, and it is the first one that
splitting finds (`Lexeme.standsBefore_first`, `Lexeme.StandsBefore.first_eq`).  So a text falls
into lexemes in one way only, into those that it is split into (`fallsInto_iff`).
-/

set_option autoImplicit false

namespace Lisp

namespace Lexeme

/-- Which lexemes may stand before a text. -/
inductive StandsBefore (after : List Char) : Lexeme → Prop where
  | separator {c : Char} : isSeparator c = true → StandsBefore after (.separator c)
  | comment {line : List Char} : (∀ c ∈ line, c ≠ '\n') → (∀ c ∈ after.head?, c = '\n') →
      StandsBefore after (.comment (';' :: line))
  | splice : StandsBefore after (.token ['~', '@'])
  | structural {c : Char} : isStructural c = true → (c = '~' → after.head? ≠ some '@') →
      StandsBefore after (.token [c])
  | literal {text : List Char} : IsLiteral text → StandsBefore after (.token text)
  | unclosed {items : List (List Char)} : (∀ item ∈ items, IsLiteralItem item) →
      after = [] ∨ after = ['\\'] → StandsBefore after (.token ('"' :: items.flatten))
  | atom {c : Char} {rest : List Char} : c ∉ ['~', '^', '@'] →
      (∀ d ∈ c :: rest, isAtomChar d = true) → (∀ d ∈ after.head?, isAtomChar d = false) →
        StandsBefore after (.token (c :: rest))

/-! ## Literals -/

theorem literalBody_item {item : List Char} (isItem : IsLiteralItem item) (rest : List Char) :
    literalBody (item ++ rest) = (item ++ (literalBody rest).1, (literalBody rest).2) := by
  cases isItem with
  | pair c => simp
  | plain noQuote noBackslash => exact literalBody_cons rest noQuote noBackslash

/-- What a literal is made of belongs to it, and then it goes on with the text behind. -/
theorem literalBody_items {items : List (List Char)} (each : ∀ item ∈ items, IsLiteralItem item)
    (rest : List Char) :
    literalBody (items.flatten ++ rest) =
      (items.flatten ++ (literalBody rest).1, (literalBody rest).2) := by
  induction items with
  | nil => rfl
  | cons item items ih =>
    obtain ⟨first, others⟩ := List.forall_mem_cons.1 each
    rw [List.flatten_cons, List.append_assoc, literalBody_item first, ih others]
    simp

/-- A literal that is left open leaves nothing behind it but perhaps one backslash. -/
theorem exists_items_of_open {text : List Char}
    (opened : closesAtEnd (literalBody text).1 = false) :
    ∃ items : List (List Char), (∀ item ∈ items, IsLiteralItem item) ∧
      (literalBody text).1 = items.flatten ∧
        ((literalBody text).2 = [] ∨ (literalBody text).2 = ['\\']) := by
  induction text using literal_induction with
  | nil => exact ⟨[], by simp, rfl, .inl rfl⟩
  | backslash => exact ⟨[], by simp, by simp, .inr (by simp)⟩
  | pair c rest ih =>
    obtain ⟨items, each, body, left⟩ := ih (by simpa [closesAtEnd] using opened)
    exact ⟨['\\', c] :: items, List.forall_mem_cons.2 ⟨.pair c, each⟩, by simp [body],
      by simpa using left⟩
  | quote rest => simp at opened
  | plain c rest noQuote noBackslash ih =>
    rw [literalBody_cons rest noQuote noBackslash] at opened ⊢
    rw [closesAtEnd_cons _ noQuote noBackslash] at opened
    obtain ⟨items, each, body, left⟩ := ih opened
    exact ⟨[c] :: items, List.forall_mem_cons.2 ⟨.plain noQuote noBackslash, each⟩,
      by simp [body], left⟩

/-! ## The first lexeme -/

/-- What is left behind a run starts with a character that is not in it. -/
theorem head?_dropWhile {keep : Char → Bool} (text : List Char) :
    ∀ c ∈ (text.dropWhile keep).head?, keep c = false := by
  intro c starts
  have stops := List.head?_dropWhile_not keep text
  rw [Option.mem_def.1 starts] at stops
  simpa using stops

/-- The structural characters that may stand inside an atom. -/
theorem mem_of_isStructural {c : Char} (structural : isStructural c = true)
    (atom : isAtomChar c = true) : c ∈ ['~', '^', '@'] := by
  simp only [isStructural, List.contains_iff_mem] at structural
  simp only [isAtomChar, Bool.and_eq_true] at atom
  grind

/-- A separator is not a token by itself. -/
theorem isStructural_of_isSeparator {c : Char} (separates : isSeparator c = true) :
    isStructural c = false := by
  rw [Bool.eq_false_iff]
  intro structural
  simp only [isStructural, List.contains_iff_mem, List.mem_cons, List.not_mem_nil, or_false]
    at structural
  rcases structural with rfl | rfl | rfl | rfl | rfl | rfl | rfl | rfl | rfl | rfl | rfl <;>
    cases separates

/-- **The first lexeme of a text may stand before the rest of it.** -/
theorem standsBefore_first (c : Char) (rest : List Char) :
    (first c rest).1.StandsBefore (first c rest).2 := by
  induction c, rest using first_cases with
  | separator c rest separates =>
    rw [first_separator separates]
    exact .separator separates
  | comment rest =>
    rw [first_comment]
    refine .comment (fun c onLine => ?_) (fun c starts => ?_)
    · simpa [isOnLine] using List.mem_takeWhile_imp onLine
    · simpa [isOnLine] using head?_dropWhile rest c starts
  | literal rest =>
    rw [first_literal]
    cases closes : closesAtEnd (literalBody rest).1 with
    | true => exact .literal ((isCompleteLiteral_iff _).1 closes)
    | false =>
      obtain ⟨items, each, body, left⟩ := exists_items_of_open closes
      rw [body]
      exact .unclosed each left
  | splice rest =>
    rw [first_splice]
    exact .splice
  | structural c rest structural noSplice =>
    rw [first_structural structural noSplice]
    exact .structural structural noSplice
  | atom c rest atom plain =>
    rw [first_atom atom plain]
    refine .atom ?_ ?_ (head?_dropWhile rest)
    · intro starts
      simp only [List.mem_cons, List.not_mem_nil, or_false] at starts
      rcases starts with rfl | rfl | rfl <;> exact absurd plain (by decide)
    · exact List.forall_mem_cons.2 ⟨atom, fun d member => List.mem_takeWhile_imp member⟩

/-- A run of one class that is followed by no character of it is taken whole. -/
theorem run_eq {keep : Char → Bool} {run after : List Char} (all : ∀ c ∈ run, keep c = true)
    (stops : ∀ c ∈ after.head?, keep c = false) :
    (run ++ after).takeWhile keep = run ∧ (run ++ after).dropWhile keep = after := by
  have whole := List.takeWhile_eq_self_iff.2 all
  have nothing := List.dropWhile_eq_nil_iff.2 all
  obtain ⟨taken, left⟩ := run_append run after fun _ => stops
  rw [taken, left, whole, nothing]
  exact ⟨rfl, rfl⟩

/-- **A lexeme that may stand before a text is the first one of both together.** -/
theorem StandsBefore.first_eq {lexeme : Lexeme} {after : List Char}
    (stands : lexeme.StandsBefore after) :
    ∃ c rest, lexeme.text ++ after = c :: rest ∧ first c rest = (lexeme, after) := by
  cases stands with
  | separator separates => exact ⟨_, _, rfl, first_separator separates after⟩
  | @comment line onLine stops =>
    obtain ⟨taken, left⟩ := @run_eq isOnLine line after (by simpa [isOnLine] using onLine)
      (by simpa [isOnLine] using stops)
    refine ⟨';', line ++ after, rfl, ?_⟩
    rw [first_comment, taken, left]
  | splice => exact ⟨_, _, rfl, first_splice after⟩
  | structural structural noSplice => exact ⟨_, _, rfl, first_structural structural noSplice⟩
  | literal literal =>
    obtain ⟨items, each, rfl⟩ := literal
    refine ⟨'"', (items.flatten ++ ['"']) ++ after, rfl, ?_⟩
    rw [first_literal, List.append_assoc, literalBody_items each, List.singleton_append,
      literalBody_quote]
  | @unclosed items each left =>
    refine ⟨'"', items.flatten ++ after, rfl, ?_⟩
    rw [first_literal, literalBody_items each]
    rcases left with rfl | rfl <;> simp
  | @atom c rest plain atom stops =>
    obtain ⟨first, others⟩ := List.forall_mem_cons.1 atom
    obtain ⟨taken, left⟩ := run_eq others stops
    have noStructural : isStructural c = false := by
      rw [Bool.eq_false_iff]
      exact fun structural => plain (mem_of_isStructural structural first)
    refine ⟨c, rest ++ after, rfl, ?_⟩
    rw [first_atom first noStructural, taken, left]

end Lexeme

/-! ## All lexemes -/

/-- Whether a text falls into lexemes, each of which may stand before what follows it. -/
inductive FallsInto : List Char → List Lexeme → Prop where
  | nothing : FallsInto [] []
  | lexeme {lexeme : Lexeme} {after : List Char} {lexemes : List Lexeme} :
      lexeme.StandsBefore after → FallsInto after lexemes →
        FallsInto (lexeme.text ++ after) (lexeme :: lexemes)

theorem fallsInto_split (text : List Char) : FallsInto text (Lexeme.split text) := by
  induction size : text.length using Nat.strongRecOn generalizing text with
  | ind size ih =>
    cases text with
    | nil =>
      rw [Lexeme.split_nil]
      exact .nothing
    | cons c rest =>
      have shorter := Lexeme.length_first_le c rest
      have further := ih _ (by simp_all; omega) (Lexeme.first c rest).2 rfl
      rw [Lexeme.split_cons, ← Lexeme.text_first c rest]
      exact .lexeme (Lexeme.standsBefore_first c rest) further

/-- **A text falls into the lexemes that it is split into, and into no others.** -/
theorem fallsInto_iff {text : List Char} {lexemes : List Lexeme} :
    FallsInto text lexemes ↔ lexemes = Lexeme.split text := by
  constructor
  · intro falls
    induction falls with
    | nothing => exact Lexeme.split_nil.symm
    | lexeme stands _ ih =>
      obtain ⟨c, rest, text, first⟩ := stands.first_eq
      rw [text, Lexeme.split_cons, first, ← ih]
  · rintro rfl
    exact fallsInto_split text

end Lisp
