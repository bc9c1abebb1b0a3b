import Lisp.Proofs.LexicalGrammar
import Lisp.Proofs.Pattern
import Lisp.Proofs.WrappedText

/-!
# Scanning with a pattern

Tokens can be found with a pattern: separators, and then one of five groups, which are tried
in turn.  The scanner matches it over and over, each time where the last match ended, passes
over comments, and gives up where nothing matches (`scan`).

It finds the tokens that a text splits into, and what it gives up is all separators
(`scan_eq`).  With the grammar of lexemes this says what the tokens of a text are, however
they are looked for (`tokens_of_source`).
-/

set_option autoImplicit false

namespace Lisp

/-! ## The pattern of a lexeme -/

/-- The groups of the pattern of a lexeme, in the order in which they are tried. -/
inductive LexemeGroup where
  | splice
  | structural
  | literal
  | comment
  | atom
  deriving DecidableEq, Repr

namespace LexemeGroup

/-- All groups, in order. -/
def all : List LexemeGroup :=
  [.splice, .structural, .literal, .comment, .atom]

/-- What stands in a literal: a backslash with the character behind it, or any character but
these two, the backslash and the quote. -/
def literalItem : Pattern :=
  .either (.both (.one (· == '\\')) (.one fun _ => true)) (.one fun c => c != '\\' && c != '"')

/-- The items of a literal, and its closing quote if it has one. -/
def literalBody : Pattern :=
  .both (.many literalItem) (.either (.one (· == '"')) .nothing)

/-- What the lexemes of a group look like. -/
def pattern : LexemeGroup → Pattern
  | splice => .both (.one (· == '~')) (.one (· == '@'))
  | structural => .one Lexeme.isStructural
  | literal => .both (.one (· == '"')) literalBody
  | comment => .both (.one (· == ';')) (.many (.one Lexeme.isOnLine))
  | atom => .both (.one Lexeme.isAtomChar) (.many (.one Lexeme.isAtomChar))

end LexemeGroup

/-- A match of the pattern of a lexeme: the group, what it took, and what it left. -/
structure LexemeMatch where
  group : LexemeGroup
  text : List Char
  left : List Char

/-- The token of a match; comments are none. -/
def LexemeMatch.token? (found : LexemeMatch) : Option String :=
  if found.group = .comment then none else some (String.ofList found.text)

/-- The ways in which a text begins with one of the groups. -/
def groupMatches (text : List Char) : List LexemeMatch :=
  LexemeGroup.all.flatMap fun group =>
    (group.pattern.cuts text).map fun cut => ⟨group, cut.taken, cut.left⟩

/-- The ways in which a text begins with separators and one of the groups. -/
def lexemeMatches (text : List Char) : List LexemeMatch :=
  ((Pattern.many (.one Lexeme.isSeparator)).cuts text).flatMap fun skipped =>
    groupMatches skipped.left

/-! ## The scanner -/

/-- The tokens that were found, and the text that was given up. -/
structure Scan where
  tokens : List String
  left : List Char

/-- Matches a lexeme over and over until the text ends or nothing matches. -/
def scan (text : List Char) : Scan :=
  if text = [] then ⟨[], []⟩
  else
    match (lexemeMatches text).head? with
    | none => ⟨[], text⟩
    | some found =>
      if _shorter : found.left.length < text.length then
        let further := scan found.left
        ⟨found.token?.toList ++ further.tokens, further.left⟩
      else ⟨[], text⟩
termination_by text.length

/-! ## Matching one group -/

namespace LexemeGroup

/-- The items of a literal and its closing quote are what belongs to a literal. -/
theorem takes_literalBody (text : List Char) :
    literalBody.Takes text (Lexeme.literalBody text).1 (Lexeme.literalBody text).2 := by
  -- The repetition takes the items; what closes the literal, if anything does, comes behind them.
  have items : ∃ taken left more, (Pattern.many literalItem).Takes text taken left ∧
      (Pattern.either (.one (· == '"')) .nothing).Takes left more (Lexeme.literalBody text).2 ∧
        taken ++ more = (Lexeme.literalBody text).1 := by
    induction text using Lexeme.literal_induction with
    | nil => exact ⟨[], [], [], .many_end rfl, .either_right rfl rfl, by simp⟩
    | backslash =>
      rw [Lexeme.literalBody_backslash]
      exact ⟨[], ['\\'], [], .many_end rfl, .either_right rfl rfl, rfl⟩
    | pair c rest ih =>
      obtain ⟨taken, left, more, repeated, closed, body⟩ := ih
      rw [Lexeme.literalBody_pair]
      have item : literalItem.Takes ('\\' :: c :: rest) ['\\', c] rest :=
        .either_left (.both (.one rfl _) (.one rfl _))
      have shorter : rest.length < ('\\' :: c :: rest).length := by
        simp only [List.length_cons]
        omega
      exact ⟨['\\', c] ++ taken, left, more, .many_more item shorter repeated, closed,
        by simp [body]⟩
    | quote rest =>
      rw [Lexeme.literalBody_quote]
      exact ⟨[], '"' :: rest, ['"'], .many_end rfl, .either_left (.one rfl rest), rfl⟩
    | plain c rest noQuote noBackslash ih =>
      obtain ⟨taken, left, more, repeated, closed, body⟩ := ih
      rw [Lexeme.literalBody_cons rest noQuote noBackslash]
      have item : literalItem.Takes (c :: rest) [c] rest :=
        .either_right (Pattern.cuts_both_one_of_not rest _ (by simpa using noBackslash))
          (.one (by simp [noQuote, noBackslash]) rest)
      exact ⟨[c] ++ taken, left, more, .many_more item (by simp) repeated, closed, by simp [body]⟩
  obtain ⟨taken, left, more, repeated, closed, body⟩ := items
  rw [← body]
  exact .both repeated closed

/-- Whether a lexeme of a group may start with a character. -/
def startsWith : LexemeGroup → Char → Bool
  | splice, c => c == '~'
  | structural, c => Lexeme.isStructural c
  | literal, c => c == '"'
  | comment, c => c == ';'
  | atom, c => Lexeme.isAtomChar c

theorem cuts_of_not_startsWith {group : LexemeGroup} {c : Char}
    (other : group.startsWith c = false) (rest : List Char) :
    group.pattern.cuts (c :: rest) = [] := by
  cases group with
  | structural => exact Pattern.cuts_one_of_not rest other
  | splice | literal | comment | atom => exact Pattern.cuts_both_one_of_not rest _ other

/-- A tilde without an `@` behind it is no splice, nor is anything else. -/
theorem cuts_splice {c : Char} {rest : List Char} (noSplice : c = '~' → rest.head? ≠ some '@') :
    splice.pattern.cuts (c :: rest) = [] := by
  by_cases tilde : c = '~'
  · subst tilde
    rw [pattern, Pattern.cuts_both_one rest _ rfl, List.map_eq_nil_iff]
    cases rest with
    | nil => rfl
    | cons d rest => exact Pattern.cuts_one_of_not rest (by simpa using noSplice rfl)
  · have other : splice.startsWith c = false := beq_eq_false_iff_ne.2 tilde
    exact cuts_of_not_startsWith other rest

/-- No group starts with a separator. -/
theorem startsWith_of_isSeparator {c : Char} (separates : Lexeme.isSeparator c = true)
    (group : LexemeGroup) : group.startsWith c = false := by
  have different : ∀ d, Lexeme.isSeparator d = false → c ≠ d := by
    rintro d other rfl
    rw [separates] at other
    cases other
  cases group with
  | splice => exact beq_eq_false_iff_ne.2 (different '~' (by decide))
  | literal => exact beq_eq_false_iff_ne.2 (different '"' (by decide))
  | comment => exact beq_eq_false_iff_ne.2 (different ';' (by decide))
  | structural => exact Lexeme.isStructural_of_isSeparator separates
  | atom =>
    simp only [Lexeme.isSeparator, Bool.or_eq_true, beq_iff_eq] at separates
    rcases separates with blank | rfl
    · simp [startsWith, Lexeme.isAtomChar, blank]
    · decide

end LexemeGroup

@[simp]
theorem groupMatches_nil : groupMatches [] = [] :=
  rfl

theorem groupMatches_of_isSeparator {c : Char} (separates : Lexeme.isSeparator c = true)
    (rest : List Char) : groupMatches (c :: rest) = [] := by
  refine List.flatMap_eq_nil_iff.2 fun group _ => ?_
  have other := LexemeGroup.startsWith_of_isSeparator separates group
  rw [LexemeGroup.cuts_of_not_startsWith other rest, List.map_nil]

/-- The match is that of the first group that begins. -/
theorem head?_groupMatches (before : List LexemeGroup) {after : List LexemeGroup}
    {group : LexemeGroup} {text taken left : List Char}
    (order : LexemeGroup.all = before ++ group :: after)
    (others : ∀ other ∈ before, other.pattern.cuts text = [])
    (begins : group.pattern.Takes text taken left) :
    (groupMatches text).head? = some ⟨group, taken, left⟩ := by
  have nothing : (before.flatMap fun group =>
      (group.pattern.cuts text).map fun cut => LexemeMatch.mk group cut.taken cut.left) = [] := by
    refine List.flatMap_eq_nil_iff.2 fun other member => ?_
    rw [others other member, List.map_nil]
  rw [Pattern.Takes] at begins
  rw [groupMatches, order, List.flatMap_append, nothing, List.nil_append, List.flatMap_cons,
    List.head?_append, List.head?_map, begins]
  rfl

theorem head?_groupMatches_of_startsWith (before : List LexemeGroup) {after : List LexemeGroup}
    {group : LexemeGroup} {c : Char} {rest taken left : List Char}
    (order : LexemeGroup.all = before ++ group :: after)
    (others : ∀ other ∈ before, other.startsWith c = false)
    (begins : group.pattern.Takes (c :: rest) taken left) :
    (groupMatches (c :: rest)).head? = some ⟨group, taken, left⟩ :=
  head?_groupMatches before order
    (fun other member => LexemeGroup.cuts_of_not_startsWith (others other member) rest) begins

/-- **The match in front of a text without separators is its first lexeme.** -/
theorem exists_groupMatch {c : Char} (plain : Lexeme.isSeparator c = false) (rest : List Char) :
    ∃ found, (groupMatches (c :: rest)).head? = some found ∧
      found.token? = (Lexeme.first c rest).1.token? ∧ found.left = (Lexeme.first c rest).2 := by
  induction c, rest using Lexeme.first_cases with
  | separator c rest separates =>
    rw [separates] at plain
    cases plain
  | comment rest =>
    have begins : LexemeGroup.comment.pattern.Takes (';' :: rest)
        ([';'] ++ rest.takeWhile Lexeme.isOnLine) (rest.dropWhile Lexeme.isOnLine) :=
      .both (.one rfl rest) (.many_one Lexeme.isOnLine rest)
    have others : ∀ other ∈ [LexemeGroup.splice, .structural, .literal],
        other.startsWith ';' = false := by decide
    refine ⟨_, head?_groupMatches_of_startsWith [.splice, .structural, .literal] rfl
      others begins, ?_⟩
    rw [Lexeme.first_comment]
    exact ⟨rfl, rfl⟩
  | literal rest =>
    have begins : LexemeGroup.literal.pattern.Takes ('"' :: rest)
        (['"'] ++ (Lexeme.literalBody rest).1) (Lexeme.literalBody rest).2 :=
      .both (.one rfl rest) (LexemeGroup.takes_literalBody rest)
    have others : ∀ other ∈ [LexemeGroup.splice, .structural], other.startsWith '"' = false := by
      decide
    refine ⟨_, head?_groupMatches_of_startsWith [.splice, .structural] rfl others begins, ?_⟩
    rw [Lexeme.first_literal]
    exact ⟨rfl, rfl⟩
  | splice rest =>
    have begins : LexemeGroup.splice.pattern.Takes ('~' :: '@' :: rest) (['~'] ++ ['@']) rest :=
      .both (.one rfl ('@' :: rest)) (.one rfl rest)
    refine ⟨_, head?_groupMatches [] rfl (by simp) begins, ?_⟩
    rw [Lexeme.first_splice]
    exact ⟨rfl, rfl⟩
  | structural c rest structural noSplice =>
    have begins : LexemeGroup.structural.pattern.Takes (c :: rest) [c] rest := .one structural rest
    have others : ∀ other ∈ [LexemeGroup.splice], other.pattern.cuts (c :: rest) = [] :=
      List.forall_mem_singleton.2 (LexemeGroup.cuts_splice noSplice)
    refine ⟨_, head?_groupMatches [.splice] rfl others begins, ?_⟩
    rw [Lexeme.first_structural structural noSplice]
    exact ⟨rfl, rfl⟩
  | atom c rest atom noStructural =>
    have begins : LexemeGroup.atom.pattern.Takes (c :: rest)
        ([c] ++ rest.takeWhile Lexeme.isAtomChar) (rest.dropWhile Lexeme.isAtomChar) :=
      .both (.one atom rest) (.many_one Lexeme.isAtomChar rest)
    have different : ∀ d, Lexeme.isAtomChar d = false ∨ Lexeme.isStructural d = true → c ≠ d := by
      rintro d other rfl
      rw [atom, noStructural] at other
      simp at other
    have others : ∀ other ∈ [LexemeGroup.splice, .structural, .literal, .comment],
        other.startsWith c = false := by
      simp only [List.forall_mem_cons, LexemeGroup.startsWith, beq_eq_false_iff_ne]
      exact ⟨different '~' (by decide), noStructural, different '"' (by decide),
        different ';' (by decide), by simp⟩
    refine ⟨_, head?_groupMatches_of_startsWith [.splice, .structural, .literal, .comment] rfl
      others begins, ?_⟩
    rw [Lexeme.first_atom atom noStructural]
    exact ⟨rfl, rfl⟩

/-! ## Skipping separators -/

/-- **Separators are skipped as a whole.**  The matcher could give some of them back, but no
group starts with one. -/
theorem lexemeMatches_eq (text : List Char) :
    lexemeMatches text = groupMatches (text.dropWhile Lexeme.isSeparator) := by
  induction text with
  | nil =>
    rw [lexemeMatches, Pattern.cuts_many]
    rfl
  | cons c rest ih =>
    cases separates : Lexeme.isSeparator c with
    | true =>
      have skipped :
          (fun cut : Pattern.Cut => groupMatches (Pattern.Cut.join ⟨[c], rest⟩ cut).left) =
            fun cut => groupMatches cut.left := rfl
      rw [lexemeMatches, Pattern.cuts_many_one rest separates, List.flatMap_append,
        List.flatMap_map, skipped, List.dropWhile_cons_of_pos separates, ← ih, lexemeMatches]
      simp [groupMatches_of_isSeparator separates]
    | false =>
      rw [lexemeMatches, Pattern.cuts_many_one_of_not rest separates, List.flatMap_singleton,
        List.dropWhile_cons_of_neg (by simp [separates])]

theorem tokensOf_dropWhile (text : List Char) :
    tokensOf (text.dropWhile Lexeme.isSeparator) = tokensOf text := by
  induction text with
  | nil => rfl
  | cons c rest ih =>
    cases separates : Lexeme.isSeparator c with
    | true => rw [List.dropWhile_cons_of_pos separates, ih, tokensOf_separator separates]
    | false => rw [List.dropWhile_cons_of_neg (by simp [separates])]

/-! ## What is found -/

theorem scan_of_match {text : List Char} {found : LexemeMatch} (nonempty : text ≠ [])
    (matched : (lexemeMatches text).head? = some found)
    (shorter : found.left.length < text.length) :
    scan text = ⟨found.token?.toList ++ (scan found.left).tokens, (scan found.left).left⟩ := by
  rw [scan, if_neg nonempty, matched]
  exact dif_pos shorter

theorem scan_of_no_match {text : List Char} (unmatched : lexemeMatches text = []) :
    scan text = ⟨[], text⟩ := by
  rw [scan, unmatched]
  split
  · next empty => rw [empty]
  · rfl

/-- **The scanner finds the tokens of a text, and gives up only separators.** -/
theorem scan_eq (text : List Char) :
    (scan text).tokens = tokensOf text ∧
      ∀ c ∈ (scan text).left, Lexeme.isSeparator c = true := by
  induction size : text.length using Nat.strongRecOn generalizing text with
  | ind size ih =>
    have skipped := lexemeMatches_eq text
    rw [← tokensOf_dropWhile]
    cases rest : text.dropWhile Lexeme.isSeparator with
    | nil =>
      rw [rest, groupMatches_nil] at skipped
      rw [scan_of_no_match skipped, tokensOf_nil]
      exact ⟨rfl, List.dropWhile_eq_nil_iff.1 rest⟩
    | cons c further =>
      have plain : Lexeme.isSeparator c = false := Lexeme.head?_dropWhile text c (by rw [rest]; rfl)
      obtain ⟨found, matched, token, left⟩ := exists_groupMatch plain further
      rw [rest] at skipped
      rw [← skipped] at matched
      have fewer := Lexeme.length_dropWhile_le Lexeme.isSeparator text
      have shorter := Lexeme.length_first_le c further
      rw [rest, List.length_cons] at fewer
      rw [← left] at shorter
      have nonempty : text ≠ [] := by
        rintro rfl
        cases rest
      obtain ⟨tokens, separators⟩ := ih _ (by omega) found.left rfl
      rw [scan_of_match nonempty matched (by omega), tokensOf_cons, tokens, token, left]
      exact ⟨rfl, left ▸ separators⟩

/-- **A source text falls into separators, comments and tokens in one way only, and its tokens
are those of this way.**  A scanner that matches the pattern of a lexeme over and over finds
the same tokens, and stops early only where nothing but separators is left. -/
theorem tokens_of_source (source : String) :
    ∃ lexemes, (∀ others, FallsInto source.toList others ↔ others = lexemes) ∧
      tokenize source = lexemes.filterMap Lexeme.token? ∧
      (scan source.toList).tokens = tokenize source ∧
      ∀ c ∈ (scan source.toList).left, Lexeme.isSeparator c = true := by
  obtain ⟨tokens, separators⟩ := scan_eq source.toList
  exact ⟨Lexeme.split source.toList, fun _ => fallsInto_iff, rfl, tokens, separators⟩

/-- A splice, a tilde, a comment, and a literal left open before a last backslash. -/
example : tokenize "~@a ~,b;c\n\"d\\" = ["~@", "a", "~", "b", "\"d", "\\"] := by cbv

end Lisp
