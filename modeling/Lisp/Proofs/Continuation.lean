import Lisp.Proofs.ReaderGrammar
import Lisp.Proofs.WrappedText

/-!
# Texts that go on

A text that is read line by line is complete, unfinished or wrong, and the reader tells the
three apart (`readSource_continued`).  Whatever is written on further lines behind a complete
text is read by itself.  An unfinished text can be completed: it lacks a closing quote, or
parentheses.  And a text that is wrong stays wrong, with the same forms and the same error.

A line break ends every lexeme but a string literal that was left open, and such a literal
goes on to the end of the text.  So the tokens before it stand whatever follows
(`closed_or_open`), and a closing quote, behind a second backslash if the text ends with one,
makes it a literal (`exists_closing_quote`).
-/

set_option autoImplicit false

namespace Lisp

/-! ## Tokens of a text that goes on -/

/-- A lexeme that is closed if it is a token, in front of closed tokens. -/
theorem isClosed_of_token? {lexeme : Lexeme} {tokens : List String}
    (closed : ∀ token, lexeme = .token token → IsClosed token)
    (others : ∀ token ∈ tokens, IsClosed token.toList) :
    ∀ token ∈ lexeme.token?.toList ++ tokens, IsClosed token.toList := by
  intro token member
  rcases List.mem_append.1 member with member | member
  · cases lexeme with
    | token text =>
      obtain rfl := List.mem_singleton.1 member
      rw [String.toList_ofList]
      exact closed text rfl
    | _ => cases member
  · exact others token member

/-- **All tokens of a text are closed, or the last one is a literal left open**, and the tokens
before that stand whatever is written behind the text. -/
theorem closed_or_open (text : List Char) :
    (∀ token ∈ tokensOf text, IsClosed token.toList) ∨
      ∃ before body, (∀ token ∈ before, IsClosed token.toList) ∧
        closesAtEnd (Lexeme.literalBody body).1 = false ∧
        ∀ after, tokensOf (text ++ after) = before ++ tokensOf ('"' :: (body ++ after)) := by
  induction size : text.length using Nat.strongRecOn generalizing text with
  | ind size ih =>
    cases text with
    | nil => exact .inl (by simp)
    | cons c rest =>
      have shorter := Lexeme.length_first_le c rest
      by_cases closed : ∀ token, (Lexeme.first c rest).1 = .token token → IsClosed token
      · rcases ih _ (by simp_all; omega) (Lexeme.first c rest).2 rfl with
          others | ⟨before, body, others, opened, goes_on⟩
        · rw [tokensOf_cons]
          exact .inl (isClosed_of_token? closed others)
        · have nonempty : (Lexeme.first c rest).2 ≠ [] := by
            intro empty
            have nothing := goes_on []
            simp [empty, tokensOf_cons, Lexeme.first_literal, Lexeme.token?] at nothing
          refine .inr ⟨_, body, isClosed_of_token? closed others, opened, fun after => ?_⟩
          rw [List.cons_append, tokensOf_cons,
            Lexeme.first_append c rest after closed fun empty => absurd empty nonempty]
          simp only [goes_on, List.append_assoc]
      · obtain ⟨token, isToken, notClosed⟩ : ∃ token, (Lexeme.first c rest).1 = .token token ∧
            ¬ IsClosed token := by simpa using closed
        obtain ⟨rfl, opened⟩ := Lexeme.open_of_not_isClosed isToken notClosed
        exact .inr ⟨[], rest, by simp, opened, fun after => rfl⟩

/-- **A line break keeps the tokens of two texts apart**, if the first text leaves no literal
open. -/
theorem tokensOf_newline {text : List Char} (closed : ∀ token ∈ tokensOf text, IsClosed token.toList)
    (after : List Char) : tokensOf (text ++ '\n' :: after) = tokensOf text ++ tokensOf after := by
  have closed_lexemes : ∀ token, .token token ∈ Lexeme.split text → IsClosed token := by
    intro token member
    have inside : String.ofList token ∈ tokensOf text :=
      List.mem_filterMap.2 ⟨.token token, member, rfl⟩
    simpa using closed _ inside
  have stops : ∀ lexeme : Lexeme, lexeme.StopsAt ('\n' :: after) := by
    intro lexeme
    cases lexeme with
    | separator c => trivial
    | comment line => simp [Lexeme.StopsAt, Lexeme.isOnLine]
    | token token => simp [Lexeme.StopsAt]; decide
  have cut := Lexeme.split_append closed_lexemes fun lexeme _ => stops lexeme
  rw [tokensOf, cut, List.filterMap_append]
  change tokensOf text ++ tokensOf ('\n' :: after) = _
  rw [tokensOf_separator (by decide)]

/-- The first token of a literal left open is not closed. -/
theorem tokensOf_open_literal {body : List Char}
    (opened : closesAtEnd (Lexeme.literalBody body).1 = false) :
    ∃ token rest, tokensOf ('"' :: body) = token :: rest ∧ ¬ IsClosed token.toList := by
  refine ⟨_, _, by rw [tokensOf_cons, Lexeme.first_literal]; rfl, fun closed => ?_⟩
  have complete := closed (by simp)
  simp [isCompleteLiteral, opened] at complete

/-- Closed tokens in front of one that is not end where others do. -/
theorem eq_of_closed {before before' rest rest' : List String} {token token' : String}
    (closed : ∀ other ∈ before, IsClosed other.toList) (notClosed : ¬ IsClosed token.toList)
    (closed' : ∀ other ∈ before', IsClosed other.toList) (notClosed' : ¬ IsClosed token'.toList)
    (same : before ++ token :: rest = before' ++ token' :: rest') : before = before' := by
  rcases List.append_eq_append_iff.1 same with ⟨more, rfl, further⟩ | ⟨more, rfl, further⟩
  · cases more with
    | nil => simp
    | cons first more =>
      obtain ⟨rfl, _⟩ := List.cons.inj further
      exact absurd (closed' token (by simp)) notClosed
  · cases more with
    | nil => simp
    | cons first more =>
      obtain ⟨rfl, _⟩ := List.cons.inj further
      exact absurd (closed token' (by simp)) notClosed'

/-- **Closed tokens at the beginning of a text stand whatever is written on further lines.** -/
theorem tokensOf_newline_of_closed {text : List Char} {before rest : List String}
    (tokens : tokensOf text = before ++ rest) (closed : ∀ token ∈ before, IsClosed token.toList)
    (after : List Char) : ∃ rest', tokensOf (text ++ '\n' :: after) = before ++ rest' := by
  rcases closed_or_open text with all_closed | ⟨others, body, others_closed, opened, goes_on⟩
  · exact ⟨rest ++ tokensOf after, by rw [tokensOf_newline all_closed, tokens, List.append_assoc]⟩
  · obtain ⟨token, left, literal, notClosed⟩ := tokensOf_open_literal opened
    have alone := goes_on []
    rw [List.append_nil, List.append_nil, tokens, literal] at alone
    rcases List.append_eq_append_iff.1 alone with ⟨more, rfl, _⟩ | ⟨more, rfl, further⟩
    · exact ⟨more ++ tokensOf ('"' :: (body ++ '\n' :: after)),
        by rw [goes_on, List.append_assoc]⟩
    · cases more with
      | nil =>
        exact ⟨tokensOf ('"' :: (body ++ '\n' :: after)), by rw [goes_on, List.append_nil]⟩
      | cons first more =>
        obtain ⟨rfl, _⟩ := List.cons.inj further
        exact absurd (closed token (by simp)) notClosed

/-! ## Completing a text -/

/-- A literal left open can be closed: with a quote, and if it ends with a backslash that
pairs with nothing, with a second backslash before the quote. -/
theorem exists_closing_quote {body : List Char}
    (opened : closesAtEnd (Lexeme.literalBody body).1 = false) :
    ∃ quote, ∀ after, ∃ text, closesAtEnd text = true ∧
      Lexeme.literalBody (body ++ (quote ++ after)) = (text, after) := by
  induction body using Lexeme.literal_induction with
  | nil => exact ⟨['"'], fun after => ⟨['"'], rfl, by simp⟩⟩
  | backslash => exact ⟨['\\', '"'], fun after => ⟨['\\', '\\', '"'], rfl, by simp⟩⟩
  | pair c rest ih =>
    obtain ⟨quote, closes⟩ := ih (by simpa [closesAtEnd] using opened)
    refine ⟨quote, fun after => ?_⟩
    obtain ⟨text, complete, body⟩ := closes after
    exact ⟨'\\' :: c :: text, by simpa [closesAtEnd] using complete, by simp [body]⟩
  | quote rest => simp at opened
  | plain c rest noQuote noBackslash ih =>
    rw [Lexeme.literalBody_cons rest noQuote noBackslash,
      Lexeme.closesAtEnd_cons _ noQuote noBackslash] at opened
    obtain ⟨quote, closes⟩ := ih opened
    refine ⟨quote, fun after => ?_⟩
    obtain ⟨text, complete, body⟩ := closes after
    refine ⟨c :: text, by rwa [Lexeme.closesAtEnd_cons _ noQuote noBackslash], ?_⟩
    rw [List.cons_append, Lexeme.literalBody_cons _ noQuote noBackslash, body]

theorem tokensOf_replicate_close (count : Nat) :
    tokensOf (List.replicate count ')') = List.replicate count ")" := by
  induction count with
  | zero => simp
  | succ count ih => simp [List.replicate_succ, ih]

/-- **Tokens in order spell forms once the lists that they leave open are closed.** -/
theorem InOrder.exists_spells_closed {tokens : List String} (order : InOrder tokens) :
    ∃ forms, Spells
      (tokens ++ List.replicate (tokens.count "(" - tokens.count ")") ")") forms := by
  have le := order.count_le
  refine InOrder.exists_spells ?_ ?_
  · refine order.append (fun before starts => ?_) fun token member _ notClose => ?_
    · have few := starts.sublist.count_le ")"
      rw [List.count_replicate_self] at few
      omega
    · exact absurd (List.eq_of_mem_replicate member) notClose
  · simp [List.count_append, List.count_replicate]
    omega

/-- So they do with a complete literal behind them. -/
theorem InOrder.exists_spells_literal {tokens : List String} (order : InOrder tokens)
    {literal : List Char} (complete : closesAtEnd literal = true) :
    ∃ forms, Spells (tokens ++ String.ofList ('"' :: literal) ::
      List.replicate (tokens.count "(" - tokens.count ")") ")") forms := by
  have well : IsWellFormedAtom (String.ofList ('"' :: literal)) := by
    have atom := @Value.ofAtom_literal (String.ofList ('"' :: literal)) _ String.toList_ofList
    rw [if_pos complete] at atom
    exact (exists_ofAtom_iff _).1 ⟨_, atom⟩
  have notParen : ∀ paren : String, paren.toList.head? ≠ some '"' →
      String.ofList ('"' :: literal) ≠ paren := by
    rintro _ plain rfl
    exact plain (by simp)
  have notOpen := notParen "(" (by decide)
  have notClose := notParen ")" (by decide)
  have longer := order.append_inOrder (.singleton notClose fun _ => well)
  have spells := longer.exists_spells_closed
  have noParens : ∀ paren, String.ofList ('"' :: literal) ≠ paren →
      (tokens ++ [String.ofList ('"' :: literal)]).count paren = tokens.count paren := by
    intro paren other
    rw [List.count_append, List.count_singleton, if_neg (by simpa using other), Nat.add_zero]
  rwa [noParens _ notOpen, noParens _ notClose, List.append_assoc] at spells

theorem InOrder.isClosed {tokens : List String} (order : InOrder tokens) :
    ∀ token ∈ tokens, IsClosed token.toList := by
  intro token member quoted
  have paren : ∀ other : String, other.toList.head? ≠ some '"' → token ≠ other := by
    rintro other plain rfl
    exact plain quoted
  have well := order.atoms token member (paren "(" (by decide)) (paren ")" (by decide))
  exact (isCompleteLiteral_iff _).2 (well.literal quoted)

/-- **A text that goes wrong because it ends too early can be completed.** -/
theorem exists_completion {text : List Char} {forms : List Value} {error : Error}
    (wrong : GoesWrong (tokensOf text) forms error) (unfinished : error.category = .unfinished) :
    ∃ further forms, Spells (tokensOf (text ++ further)) forms := by
  obtain ⟨before, rest, tokens, order, offends, _⟩ := wrong
  rw [unfinished] at offends
  cases offends with
  | ends opened =>
    rw [List.append_nil] at tokens
    have closed := order.isClosed
    rw [← tokens] at closed
    refine ⟨'\n' :: List.replicate (before.count "(" - before.count ")") ')', ?_⟩
    rw [tokensOf_newline closed, tokensOf_replicate_close, tokens]
    exact order.exists_spells_closed
  | @string token rest quoted noLiteral =>
    have notClosed : ¬ IsClosed token.toList :=
      fun closed => noLiteral ((isCompleteLiteral_iff _).1 (closed quoted))
    rcases closed_or_open text with all_closed | ⟨others, body, others_closed, opened, goes_on⟩
    · exact absurd (all_closed token (by simp [tokens])) notClosed
    -- What stands before the literal left open is what is in order.
    obtain ⟨token', left, literal, notClosed'⟩ := tokensOf_open_literal opened
    have alone := goes_on []
    rw [List.append_nil, List.append_nil, tokens, literal] at alone
    obtain rfl := eq_of_closed order.isClosed notClosed others_closed notClosed' alone
    obtain ⟨quote, closes⟩ := exists_closing_quote opened
    obtain ⟨text', complete, body'⟩ :=
      closes (List.replicate (before.count "(" - before.count ")") ')')
    refine ⟨quote ++ List.replicate (before.count "(" - before.count ")") ')', ?_⟩
    rw [goes_on, tokensOf_cons, Lexeme.first_literal, body', tokensOf_replicate_close]
    exact order.exists_spells_literal complete

/-! ## Reading on -/

theorem readAllOnto_append (room : Room) (before forms : List Value) (tokens : List String) :
    readAllOnto room (forms ++ before) tokens =
      ⟨before.reverse ++ (readAllOnto room forms tokens).forms,
        (readAllOnto room forms tokens).failure?, (readAllOnto room forms tokens).rest⟩ := by
  fun_induction readAllOnto room forms tokens with
  | case1 forms tokens noTokens =>
    obtain rfl := List.isEmpty_iff.1 noTokens
    simp
  | case2 forms tokens someTokens value rest read ih =>
    rw [readAllOnto_of_ok read]
    exact ih
  | case3 forms tokens someTokens failure rest read =>
    rw [readAllOnto_of_error (by simpa using someTokens) read]
    simp

/-- A form that is read is read as well when more tokens follow, which are left. -/
theorem readInto_append {room : Room} {openLists : List (List Value)} {tokens : List String}
    {value : Value} {rest : List String} (read : readInto room openLists tokens = ⟨.ok value, rest⟩)
    (further : List String) :
    readInto room openLists (tokens ++ further) = ⟨.ok value, rest ++ further⟩ := by
  fun_induction readInto room openLists tokens with
  | case1 | case2 | case3 | case5 | case8 => cases read
  | case4 room openLists rest inner entered ih =>
    rw [List.cons_append, readInto_open _ _ entered]
    exact ih read
  | case6 room rest items =>
    cases read
    rw [List.cons_append, readInto_close, readOn]
  | case7 room rest items around further _ ih =>
    rw [List.cons_append, readInto_close, readOn]
    exact ih read
  | case9 room token rest notOpen notClose value atom =>
    cases read
    rw [List.cons_append, readInto_atom _ _ notOpen notClose atom, readOn]
  | case10 room token rest notOpen notClose value atom items further ih =>
    rw [List.cons_append, readInto_atom _ _ notOpen notClose atom, readOn]
    exact ih read

theorem readNested_append {room : Room} {tokens : List String} {value : Value} {rest : List String}
    (read : readNested room tokens = ⟨.ok value, rest⟩) (further : List String) :
    readNested room (tokens ++ further) = ⟨.ok value, rest ++ further⟩ := by
  have form := readInto_append (readInto_of_readNested read) further
  rw [readNested, readForm, form]

/-- Behind the forms of the first tokens the reader starts anew on those that follow. -/
theorem readAllOnto_goes_on {room : Room} {before : List Value} {tokens : List String}
    (complete : (readAllOnto room before tokens).failure? = none) (further : List String) :
    readAllOnto room before (tokens ++ further) =
      readAllOnto room (readAllOnto room before tokens).forms.reverse further := by
  fun_induction readAllOnto room before tokens with
  | case1 before tokens noTokens =>
    obtain rfl := List.isEmpty_iff.1 noTokens
    rw [List.nil_append, List.reverse_reverse]
  | case2 before tokens someTokens value rest read ih =>
    rw [readAllOnto_of_ok (readNested_append read further)]
    exact ih complete
  | case3 => cases complete

/-- **Forms that are all read come first when more tokens follow.** -/
theorem readAll_append {room : Room} {tokens : List String}
    (complete : (readAll room tokens).failure? = none) (further : List String) :
    readAll room (tokens ++ further) =
      ⟨(readAll room tokens).forms ++ (readAll room further).forms,
        (readAll room further).failure?, (readAll room further).rest⟩ := by
  have shifted := readAllOnto_append room (readAll room tokens).forms.reverse [] further
  rw [List.nil_append, List.reverse_reverse] at shifted
  rw [readAll, readAllOnto_goes_on complete]
  exact shifted

/-- Tokens behind others that spell forms are read by themselves. -/
theorem Spells.readAll_append {tokens : List String} {forms : List Value}
    (spells : Spells tokens forms) (further : List String) :
    readAll .unlimited (tokens ++ further) =
      ⟨forms ++ (readAll .unlimited further).forms, (readAll .unlimited further).failure?,
        (readAll .unlimited further).rest⟩ := by
  rw [Lisp.readAll_append (by rw [spells.readAll_eq]), spells.readAll_eq]

/-- **Tokens that go wrong, other than by ending, go wrong whatever follows.** -/
theorem goesWrong_of_malformed {text : List Char} {forms : List Value} {error : Error}
    (wrong : GoesWrong (tokensOf text) forms error) (malformed : error.category = .malformed)
    (after : List Char) : GoesWrong (tokensOf (text ++ '\n' :: after)) forms error := by
  obtain ⟨before, rest, tokens, order, offends, completes⟩ := wrong
  have closed := order.isClosed
  have stays : ∀ token others, rest = token :: others → IsClosed token.toList →
      ∃ rest', tokensOf (text ++ '\n' :: after) = before ++ token :: rest' := by
    rintro token others rfl one_closed
    have both : ∀ other ∈ before ++ [token], IsClosed other.toList := by
      intro other member
      rcases List.mem_append.1 member with member | member
      · exact closed other member
      · rw [List.mem_singleton.1 member]
        exact one_closed
    have longer : tokensOf text = (before ++ [token]) ++ others := by
      rw [tokens, List.append_assoc, List.singleton_append]
    obtain ⟨rest', same⟩ := tokensOf_newline_of_closed longer both after
    exact ⟨rest', by rw [same, List.append_assoc, List.singleton_append]⟩
  rw [malformed] at offends
  cases offends with
  | close all_closed =>
    obtain ⟨rest', same⟩ := stays ")" _ rfl (by simp [IsClosed])
    exact ⟨before, ")" :: rest', same, order, .close all_closed, completes⟩
  | @number token rest shaped noNumeral =>
    have unquoted :=
      Numeral.head?_ne_quote_of_claimsNumber ((Numeral.claimsNumber_iff _).2 shaped)
    obtain ⟨rest', same⟩ := stays token _ rfl fun quoted => absurd quoted unquoted
    exact ⟨before, token :: rest', same, order, .number shaped noNumeral, completes⟩

/-- The category of what is wrong with tokens. -/
theorem GoesWrong.category_eq {tokens : List String} {forms : List Value} {error : Error}
    (wrong : GoesWrong tokens forms error) :
    error.category = .malformed ∨ error.category = .unfinished := by
  obtain ⟨_, _, _, _, offends, _⟩ := wrong
  generalize error.category = category at offends
  cases offends <;> simp

theorem toList_append_newline (source further : String) :
    (source ++ "\n" ++ further).toList = source.toList ++ '\n' :: further.toList := by
  simp [String.toList_append]

/-- **A text that is read goes on with what the next lines are; a text that ends too early can
be completed; and a text with an error of any other kind has that error, and the same forms
before it, whatever the next lines are.** -/
theorem readSource_continued (source : String) :
    ((readSource .unlimited source).failure? = none → ∀ further,
      readSource .unlimited (source ++ "\n" ++ further) =
        ⟨(readSource .unlimited source).forms ++ (readSource .unlimited further).forms,
          (readSource .unlimited further).failure?, (readSource .unlimited further).rest⟩) ∧
    ∀ error, (readSource .unlimited source).failure? = some (.error error) →
      (error.category.isA .unfinished = true →
        ∃ further, (readSource .unlimited (source ++ further)).failure? = none) ∧
      (error.category.isA .malformed = true → error.category.isA .unfinished = false →
        ∀ further,
          (readSource .unlimited (source ++ "\n" ++ further)).failure? = some (.error error) ∧
          (readSource .unlimited (source ++ "\n" ++ further)).forms =
            (readSource .unlimited source).forms) := by
  simp only [readSource, tokenize_eq, toList_append_newline]
  refine ⟨fun succeeds further => ?_, fun error fails => ?_⟩
  · have spells := spells_iff.1 ⟨rfl, succeeds⟩
    rw [tokensOf_newline spells.inOrder.1.isClosed, spells.readAll_append]
  · obtain ⟨_, same, wrong⟩ := goesWrong_iff.1 ⟨rfl, fails⟩
    cases same
    rcases wrong.category_eq with category | category
    · rw [category]
      refine ⟨fun unfinished => (by cases unfinished), fun _ _ further => ?_⟩
      exact (goesWrong_iff.2 ⟨error, rfl, goesWrong_of_malformed wrong category _⟩).symm
    · rw [category]
      refine ⟨fun _ => ?_, fun _ finished => by cases finished⟩
      obtain ⟨further, forms, spells⟩ := exists_completion wrong category
      refine ⟨String.ofList further, ?_⟩
      rw [String.toList_append, String.toList_ofList]
      exact (spells_iff.2 spells).2

/-- A text read whole, a list left open, and a parenthesis too many. -/
theorem readSource_continued_cases :
    (readSource .unlimited ("()" ++ "\n" ++ ")")).forms = [.list []] ∧
      (∃ further, (readSource .unlimited ("(" ++ further)).failure? = none) ∧
      (readSource .unlimited (")" ++ "\n" ++ "()")).failure? = some (.error .unexpectedClose) := by
  have empty : readNested .unlimited ["(", ")"] = ⟨.ok (.list []), []⟩ := rfl
  have close : readNested .unlimited [")"] = ⟨.error (.error .unexpectedClose), [")"]⟩ := rfl
  have unclosed : readNested .unlimited ["("] = ⟨.error (.error .endInList), []⟩ := rfl
  have whole : readSource .unlimited "()" = ⟨[.list []], none, []⟩ := by
    simp [readSource, tokenize_eq, readAll, readAllOnto_of_ok empty]
  have stray : readSource .unlimited ")" = ⟨[], some (.error .unexpectedClose), [")"]⟩ := by
    simp [readSource, tokenize_eq, readAll, readAllOnto_of_error (by simp) close]
  have opened : (readSource .unlimited "(").failure? = some (.error .endInList) := by
    simp [readSource, tokenize_eq, readAll, readAllOnto_of_error (by simp) unclosed]
  refine ⟨?_, ((readSource_continued "(").2 _ opened).1 rfl, ?_⟩
  · rw [(readSource_continued "()").1 (by rw [whole]) ")", whole, stray]
    rfl
  · exact (((readSource_continued ")").2 _ (by rw [stray])).2 rfl rfl "()").1

end Lisp
