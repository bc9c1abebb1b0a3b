import Lisp.Proofs.Spelling

/-!
# The grammar of the reader

Which tokens can be read is a matter of counting and of looking at single tokens.  Tokens
are in order when no parenthesis closes more than was opened before it and every other
token is a well-formed atom (`InOrder`).  All of them are read just when they are in order
and every list is closed, and then they are read as the forms that they spell; no other
forms are spelled by them.

Otherwise there is a first point at which something is wrong (`Offends`), and what was read
are the forms that are complete at top level before it (`Completes`).  The error is the one
of that point, and the reader knows no other (`readAll_iff_grammar`).
-/

set_option autoImplicit false

namespace Lisp

/-! ## Order -/

/-- Tokens in order: going from left to right, no more lists are closed than were opened,
and what is no parenthesis is a well-formed atom. -/
structure InOrder (tokens : List String) : Prop where
  closes_le : ∀ before, before <+: tokens → before.count ")" ≤ before.count "("
  atoms : ∀ token ∈ tokens, token ≠ "(" → token ≠ ")" → IsWellFormedAtom token

/-- What is wrong behind tokens in order: an error of a category, that depends on how many
lists are open and on the next token if there is one. -/
inductive Offends (before : List String) : List String → Error → Category → Prop where
  | close {rest : List String} : before.count ")" = before.count "(" →
      Offends before (")" :: rest) .unexpectedClose .malformed
  | number {token : String} {rest : List String} : Numeral.IsNumberShaped token.toList →
      ¬ Numeral.IsNumeral token.toList →
        Offends before (token :: rest) (.malformedNumber token) .malformed
  | string {token : String} {rest : List String} : token.toList.head? = some '"' →
      ¬ IsLiteral token.toList → Offends before (token :: rest) (.unbalancedString token) .unfinished
  | ends : before.count ")" < before.count "(" → Offends before [] .endInList .unfinished

/-- The forms that are complete at top level in tokens: these spell the forms, and behind
that a list is open all along. -/
def Completes (tokens : List String) (forms : List Value) : Prop :=
  ∃ complete pending, tokens = complete ++ pending ∧ Spells complete forms ∧
    ∀ before, before <+: pending → before ≠ [] → before.count ")" < before.count "("

/-- Whether tokens go wrong at some point, with the forms complete before it and the error
of that point. -/
def GoesWrong (tokens : List String) (forms : List Value) (error : Error) : Prop :=
  ∃ before rest, tokens = before ++ rest ∧ InOrder before ∧
    Offends before rest error error.category ∧ Completes before forms

/-- A prefix of two lists in a row ends in the first or in the second. -/
theorem prefix_append_cases {first second before : List String} (starts : before <+: first ++ second) :
    before <+: first ∨ ∃ further, before = first ++ further ∧ further <+: second := by
  rcases List.prefix_or_prefix_of_prefix starts (List.prefix_append first second) with inside | past
  · exact .inl inside
  · obtain ⟨further, rfl⟩ := past
    exact .inr ⟨further, rfl, (List.prefix_append_right_inj first).1 starts⟩

namespace InOrder

variable {tokens further : List String}

theorem nothing : InOrder [] where
  closes_le before starts := by
    rw [List.prefix_nil.1 starts]
    exact Nat.le_refl _
  atoms := by simp

theorem count_le (order : InOrder tokens) : tokens.count ")" ≤ tokens.count "(" :=
  order.closes_le tokens List.prefix_rfl

/-- Tokens stay in order when what follows them closes no more than they leave open. -/
theorem append (order : InOrder tokens)
    (closes_le : ∀ before, before <+: further →
      tokens.count ")" + before.count ")" ≤ tokens.count "(" + before.count "(")
    (atoms : ∀ token ∈ further, token ≠ "(" → token ≠ ")" → IsWellFormedAtom token) :
    InOrder (tokens ++ further) where
  closes_le before starts := by
    rcases prefix_append_cases starts with inside | ⟨past, rfl, begins⟩
    · exact order.closes_le before inside
    · simpa only [List.count_append] using closes_le past begins
  atoms token member := by
    rcases List.mem_append.1 member with member | member
    · exact order.atoms token member
    · exact atoms token member

theorem append_inOrder (first : InOrder tokens) (second : InOrder further) :
    InOrder (tokens ++ further) := by
  refine first.append (fun before starts => ?_) second.atoms
  exact Nat.add_le_add first.count_le (second.closes_le before starts)

theorem singleton {token : String} (notClose : token ≠ ")")
    (atom : token ≠ "(" → IsWellFormedAtom token) : InOrder [token] where
  closes_le before starts := by
    have none : before.count ")" = 0 := by
      refine List.count_eq_zero.2 fun member => ?_
      exact notClose (List.mem_singleton.1 (starts.subset member)).symm
    rw [none]
    exact Nat.zero_le _
  atoms other member notOpen _ := by
    obtain rfl := List.mem_singleton.1 member
    exact atom notOpen

end InOrder

/-! ## Spelled tokens are in order -/

/-- An opening parenthesis is in order. -/
theorem InOrder.opening : InOrder ["("] :=
  .singleton (by decide) (absurd rfl)

/-- **Tokens that spell forms are in order and close all they open.** -/
theorem Spells.inOrder {tokens : List String} {forms : List Value} (spells : Spells tokens forms) :
    InOrder tokens ∧ tokens.count ")" = tokens.count "(" := by
  induction spells with
  | nothing => exact ⟨.nothing, rfl⟩
  | @atom token value tokens forms notOpen notClose atom _ ih =>
    have well := (exists_ofAtom_iff token).1 ⟨value, atom⟩
    have order := (InOrder.singleton notClose fun _ => well).append_inOrder ih.1
    refine ⟨order, ?_⟩
    simp [notOpen, notClose, ih.2]
  | @list inside tokens items forms _ _ ihInside ih =>
    have opened := InOrder.opening.append_inOrder ihInside.1
    have closed : InOrder (["("] ++ inside ++ [")"]) := by
      refine opened.append (fun before starts => ?_) (by simp)
      have all_open : before.count ")" ≤ 1 :=
        (starts.sublist.count_le ")").trans (by decide)
      simp only [List.count_append, List.count_singleton, ihInside.2]
      simp only [beq_iff_eq, String.reduceEq, if_false, if_true]
      omega
    have order := closed.append_inOrder ih.1
    refine ⟨by simpa using order, ?_⟩
    simp [List.count_append, ihInside.2, ih.2]
    omega

/-- Tokens that leave lists open are in order, every beginning of them leaves a list open,
and as many are open at the end as there are lists. -/
theorem Opens.inOrder {tokens : List String} {openLists : List (List Value)}
    (opens : Opens tokens openLists) :
    InOrder tokens ∧ tokens.count "(" = tokens.count ")" + openLists.length ∧
      ∀ before, before <+: tokens → before ≠ [] → before.count ")" < before.count "(" := by
  induction opens with
  | none =>
    refine ⟨.nothing, rfl, fun before starts nonempty => ?_⟩
    exact absurd (List.prefix_nil.1 starts) nonempty
  | @list outside inside openLists items _ spells ih =>
    obtain ⟨order, count, strict⟩ := ih
    have opened := order.append_inOrder (InOrder.opening.append_inOrder spells.inOrder.1)
    refine ⟨by simpa using opened, ?_, fun before starts nonempty => ?_⟩
    · simp [List.count_append, spells.inOrder.2, count]
      omega
    · rcases prefix_append_cases starts with inside | ⟨past, rfl, begins⟩
      · exact strict before inside nonempty
      · rcases List.prefix_cons_iff.1 begins with rfl | ⟨within, rfl, goes_on⟩
        · rw [List.append_nil] at nonempty ⊢
          exact strict outside List.prefix_rfl nonempty
        · have le := spells.inOrder.1.closes_le within goes_on
          have le' := order.count_le
          simp [List.count_append]
          omega

/-- Tokens that are reached are in order, and leave as many lists open as there are. -/
theorem Reached.inOrder {tokens : List String} {forms : List Value}
    {openLists : List (List Value)} (reached : Reached tokens forms openLists) :
    InOrder tokens ∧ tokens.count "(" = tokens.count ")" + openLists.length ∧
      Completes tokens forms := by
  obtain ⟨complete, pending, rfl, spells, opens⟩ := reached
  obtain ⟨order, count, strict⟩ := opens.inOrder
  refine ⟨spells.inOrder.1.append_inOrder order, ?_, complete, pending, rfl, spells, strict⟩
  simp [List.count_append, spells.inOrder.2, count]
  omega

/-! ## Tokens in order are reached -/

/-- A token that stops reading is not in order behind what was reached. -/
theorem Blocks.not_inOrder {before : List String} {forms : List Value}
    {openLists : List (List Value)} (reached : Reached before forms openLists) {token : String}
    {error : Error} (blocks : Blocks openLists token error) (rest : List String) :
    ¬ InOrder (before ++ token :: rest) := by
  intro order
  cases blocks with
  | close =>
    have count := reached.inOrder.2.1
    have closes := order.closes_le (before ++ [")"]) ⟨rest, by simp⟩
    simp [List.count_append] at closes count
    omega
  | atom _ notOpen notClose atom =>
    have well := order.atoms token (by simp) notOpen notClose
    exact ((ofAtom_error_iff token error).1 atom).not_isWellFormedAtom well

/-- **Tokens in order spell forms and leave lists open.** -/
theorem InOrder.exists_reached {tokens : List String} (order : InOrder tokens) :
    ∃ forms openLists, Reached tokens forms openLists := by
  obtain ⟨before, forms, openLists, reached, rfl | ⟨token, rest, error, rfl, blocks⟩⟩ :=
    Lisp.exists_reached tokens
  · exact ⟨forms, openLists, reached⟩
  · exact absurd order (blocks.not_inOrder reached rest)

/-- Tokens in order that close all they open spell forms. -/
theorem InOrder.exists_spells {tokens : List String} (order : InOrder tokens)
    (closed : tokens.count ")" = tokens.count "(") : ∃ forms, Spells tokens forms := by
  obtain ⟨forms, openLists, reached⟩ := order.exists_reached
  have count := reached.inOrder.2.1
  obtain rfl : openLists = [] := List.length_eq_zero_iff.1 (by omega)
  exact ⟨forms, reached.spells⟩

/-- Tokens that spell forms are read as these, so they spell no others. -/
theorem Spells.unique {tokens : List String} {forms forms' : List Value}
    (spells : Spells tokens forms) (spells' : Spells tokens forms') : forms = forms' := by
  have same := spells.readAll_eq.symm.trans spells'.readAll_eq
  cases same
  rfl

/-- What is complete at top level ends where the lists left open begin. -/
theorem Completes.unique {tokens : List String} {forms forms' : List Value}
    (completes : Completes tokens forms) (completes' : Completes tokens forms') : forms = forms' := by
  obtain ⟨complete, pending, rfl, spells, strict⟩ := completes
  obtain ⟨complete', pending', same, spells', strict'⟩ := completes'
  have closed := spells.inOrder.2
  have closed' := spells'.inOrder.2
  -- If one part went further than the other, the rest of it would be closed and open at once.
  have same_part : complete = complete' := by
    rcases List.append_eq_append_iff.1 same with ⟨more, rfl, rfl⟩ | ⟨more, rfl, rfl⟩
    · by_contra longer
      have open_ := strict more (List.prefix_append _ _) (by rintro rfl; simp at longer)
      simp [List.count_append] at closed'
      omega
    · by_contra longer
      have open_ := strict' more (List.prefix_append _ _) (by rintro rfl; simp at longer)
      simp [List.count_append] at closed
      omega
  subst same_part
  exact spells.unique spells'

/-! ## Where tokens go wrong -/

/-- What stops reading is what is wrong. -/
theorem Blocks.offends {before : List String} {forms : List Value} {openLists : List (List Value)}
    (reached : Reached before forms openLists) {token : String} {error : Error}
    (blocks : Blocks openLists token error) (rest : List String) :
    Offends before (token :: rest) error error.category := by
  cases blocks with
  | close =>
    have count := reached.inOrder.2.1
    exact .close (by simpa using count.symm)
  | atom _ notOpen notClose atom =>
    cases (ofAtom_error_iff token error).1 atom with
    | number shaped noNumeral => exact .number shaped noNumeral
    | string quoted noLiteral => exact .string quoted noLiteral

theorem ne_paren_of_isIllFormedAtom {token : String} {error : Error}
    (ill : IsIllFormedAtom token error) : token ≠ "(" ∧ token ≠ ")" := by
  have fails := (ofAtom_error_iff token error).2 ill
  constructor
  · rintro rfl
    cases fails
  · rintro rfl
    cases fails

/-- **Tokens that go wrong are read up to that point, and the error is that of the point.** -/
theorem GoesWrong.readAll_eq {tokens : List String} {forms : List Value} {error : Error}
    (wrong : GoesWrong tokens forms error) :
    ∃ rest, readAll .unlimited tokens = ⟨forms, some (.error error), rest⟩ := by
  obtain ⟨before, rest, rfl, order, offends, completes⟩ := wrong
  obtain ⟨forms', openLists, reached⟩ := order.exists_reached
  obtain ⟨_, count, completes'⟩ := reached.inOrder
  obtain rfl := completes.unique completes'
  generalize error.category = category at offends
  cases offends with
  | close closed =>
    obtain rfl : openLists = [] := List.length_eq_zero_iff.1 (by omega)
    exact reached.readAll_of_blocks .close _
  | number shaped noNumeral =>
    have ill := IsIllFormedAtom.number shaped noNumeral
    obtain ⟨notOpen, notClose⟩ := ne_paren_of_isIllFormedAtom ill
    exact reached.readAll_of_blocks (.atom _ notOpen notClose ((ofAtom_error_iff _ _).2 ill)) _
  | string quoted noLiteral =>
    have ill := IsIllFormedAtom.string quoted noLiteral
    obtain ⟨notOpen, notClose⟩ := ne_paren_of_isIllFormedAtom ill
    exact reached.readAll_of_blocks (.atom _ notOpen notClose ((ofAtom_error_iff _ _).2 ill)) _
  | ends opened =>
    have inside : openLists ≠ [] := by
      rintro rfl
      simp at count
      omega
    rw [List.append_nil]
    exact ⟨[], reached.readAll_of_open inside⟩

/-- **Tokens spell forms, or they go wrong.** -/
theorem spells_or_goesWrong (tokens : List String) :
    (∃ forms, Spells tokens forms) ∨ ∃ forms error, GoesWrong tokens forms error := by
  obtain ⟨before, forms, openLists, reached, rfl | ⟨token, rest, error, rfl, blocks⟩⟩ :=
    exists_reached tokens
  · obtain ⟨order, count, completes⟩ := reached.inOrder
    cases openLists with
    | nil => exact .inl ⟨forms, reached.spells⟩
    | cons items further =>
      have opened : tokens.count ")" < tokens.count "(" := by
        rw [count, List.length_cons]
        omega
      exact .inr ⟨forms, .endInList, tokens, [], (List.append_nil _).symm, order, .ends opened,
        completes⟩
  · obtain ⟨order, _, completes⟩ := reached.inOrder
    exact .inr ⟨forms, error, before, token :: rest, rfl, order, blocks.offends reached rest,
      completes⟩

/-- Tokens that go wrong fail with the error, and spell nothing. -/
theorem goesWrong_iff {tokens : List String} {forms : List Value} {failure : Failure} :
    (readAll .unlimited tokens).forms = forms ∧
        (readAll .unlimited tokens).failure? = some failure ↔
      ∃ error, failure = .error error ∧ GoesWrong tokens forms error := by
  constructor
  · rintro ⟨rfl, fails⟩
    rcases spells_or_goesWrong tokens with ⟨forms, spells⟩ | ⟨forms, error, wrong⟩
    · rw [spells.readAll_eq] at fails
      cases fails
    · obtain ⟨rest, read⟩ := wrong.readAll_eq
      rw [read] at fails ⊢
      cases fails
      exact ⟨error, rfl, wrong⟩
  · rintro ⟨error, rfl, wrong⟩
    obtain ⟨rest, read⟩ := wrong.readAll_eq
    rw [read]
    exact ⟨rfl, rfl⟩

theorem spells_iff {tokens : List String} {forms : List Value} :
    (readAll .unlimited tokens).forms = forms ∧ (readAll .unlimited tokens).failure? = none ↔
      Spells tokens forms := by
  constructor
  · rintro ⟨rfl, succeeds⟩
    rcases spells_or_goesWrong tokens with ⟨forms, spells⟩ | ⟨forms, error, wrong⟩
    · rw [spells.readAll_eq]
      exact spells
    · obtain ⟨rest, read⟩ := wrong.readAll_eq
      rw [read] at succeeds
      cases succeeds
  · intro spells
    rw [spells.readAll_eq]
    exact ⟨rfl, rfl⟩

theorem exists_spells_iff (tokens : List String) :
    (∃ forms, Spells tokens forms) ↔ InOrder tokens ∧ tokens.count ")" = tokens.count "(" :=
  ⟨fun ⟨_, spells⟩ => spells.inOrder, fun ⟨order, closed⟩ => order.exists_spells closed⟩

/-- **All tokens are read just when no beginning of them closes more lists than it opens, all
lists are closed in the end, and every other token is a well-formed atom.**  Then the forms
are the only ones that the tokens spell.  And tokens that are not all read go wrong at a first
point: what was read are the forms complete at top level before it, and the failure is the
error of that point, in its category. -/
theorem readAll_iff_grammar (tokens : List String) :
    ((readAll .unlimited tokens).failure? = none ↔
      InOrder tokens ∧ tokens.count ")" = tokens.count "(") ∧
    (∀ forms, (readAll .unlimited tokens).forms = forms ∧
        (readAll .unlimited tokens).failure? = none ↔ Spells tokens forms) ∧
    ∀ forms failure, (readAll .unlimited tokens).forms = forms ∧
        (readAll .unlimited tokens).failure? = some failure ↔
      ∃ error, failure = .error error ∧ GoesWrong tokens forms error := by
  refine ⟨?_, fun forms => spells_iff, fun forms failure => goesWrong_iff⟩
  rw [← exists_spells_iff]
  constructor
  · intro succeeds
    exact ⟨_, spells_iff.1 ⟨rfl, succeeds⟩⟩
  · rintro ⟨forms, spells⟩
    exact (spells_iff.2 spells).2

end Lisp
