/-!
# Patterns and backtracking

A pattern says how a text may begin.  A matcher that backtracks tries the ways in which it
can in order: what a choice names first before what it names second, and a further round of
a repetition before its end.  `Pattern.cuts` lists all of them in that order, each with what
it takes of the text and what it leaves; the first one is the match.

To know the match of a pattern it is enough to follow the matches of its parts, as long as
none of them has to be taken back (`Takes.both`, `Takes.either_left`, `Takes.many_more`).

A pattern accepts a text when one of the ways takes all of it.  And the matches of a pattern
can be looked for in a text, from left to right (`Pattern.pieces`).
-/

set_option autoImplicit false

namespace Lisp

/-- How a text may begin. -/
inductive Pattern where
  | nothing
  | one (accepts : Char → Bool)
  | both (first second : Pattern)
  | either (first second : Pattern)
  | many (round : Pattern)

namespace Pattern

/-- A text cut in two: what a pattern takes, and what it leaves. -/
structure Cut where
  taken : List Char
  left : List Char

/-- A cut and then another one in what it leaves. -/
def Cut.join (cut next : Cut) : Cut :=
  ⟨cut.taken ++ next.taken, next.left⟩

/-- The ways of going round and round, longer ones first; a round has to take something. -/
def rounds (round : List Char → List Cut) (text : List Char) : List Cut :=
  ((round text).flatMap fun cut =>
    if _shorter : cut.left.length < text.length then (rounds round cut.left).map cut.join
    else []) ++ [⟨[], text⟩]
termination_by text.length

/-- The ways in which a text begins as a pattern says, in the order in which they are tried. -/
def cuts : Pattern → List Char → List Cut
  | .nothing, text => [⟨[], text⟩]
  | .one _, [] => []
  | .one accepts, c :: rest => if accepts c then [⟨[c], rest⟩] else []
  | .both first second, text =>
    (first.cuts text).flatMap fun cut => (second.cuts cut.left).map cut.join
  | .either first second, text => first.cuts text ++ second.cuts text
  | .many round, text => rounds round.cuts text

/-- Whether the match of a pattern takes this much of a text and leaves that. -/
def Takes (pattern : Pattern) (text taken left : List Char) : Prop :=
  (pattern.cuts text).head? = some ⟨taken, left⟩

theorem cuts_both (first second : Pattern) (text : List Char) :
    (both first second).cuts text =
      (first.cuts text).flatMap fun cut => (second.cuts cut.left).map cut.join :=
  rfl

theorem cuts_either (first second : Pattern) (text : List Char) :
    (either first second).cuts text = first.cuts text ++ second.cuts text :=
  rfl

/-- A repetition takes a round and goes on behind it, or it ends. -/
theorem cuts_many (round : Pattern) (text : List Char) :
    (many round).cuts text =
      ((round.cuts text).flatMap fun cut =>
        if _shorter : cut.left.length < text.length then ((many round).cuts cut.left).map cut.join
        else []) ++ [⟨[], text⟩] := by
  rw [cuts, rounds]
  rfl

/-! ## Single characters -/

section One

variable {accepts : Char → Bool} {c : Char} (rest : List Char)

theorem cuts_one (accepted : accepts c = true) : (one accepts).cuts (c :: rest) = [⟨[c], rest⟩] :=
  if_pos accepted

theorem cuts_one_of_not (refused : accepts c = false) : (one accepts).cuts (c :: rest) = [] :=
  if_neg (ne_true_of_eq_false refused)

theorem cuts_both_one (second : Pattern) (accepted : accepts c = true) :
    (both (one accepts) second).cuts (c :: rest) =
      (second.cuts rest).map fun cut => ⟨c :: cut.taken, cut.left⟩ := by
  rw [cuts_both, cuts_one rest accepted, List.flatMap_singleton]
  rfl

theorem cuts_both_one_of_not (second : Pattern) (refused : accepts c = false) :
    (both (one accepts) second).cuts (c :: rest) = [] := by
  rw [cuts_both, cuts_one_of_not rest refused, List.flatMap_nil]

end One

/-! ## The match, part by part -/

namespace Takes

variable {first second round : Pattern} {text taken left more left' : List Char}

theorem one {accepts : Char → Bool} {c : Char} (accepted : accepts c = true) (rest : List Char) :
    Takes (.one accepts) (c :: rest) [c] rest :=
  congrArg List.head? (cuts_one rest accepted)

/-- The match of one pattern and then another, if the second goes on from the first. -/
theorem both (begins : Takes first text taken left) (goes_on : Takes second left more left') :
    Takes (.both first second) text (taken ++ more) left' := by
  obtain ⟨others, begins⟩ := List.head?_eq_some_iff.1 begins
  obtain ⟨further, goes_on⟩ := List.head?_eq_some_iff.1 goes_on
  show ((Pattern.both first second).cuts text).head? = _
  rw [cuts_both, begins, List.flatMap_cons, goes_on]
  rfl

theorem either_left (begins : Takes first text taken left) :
    Takes (.either first second) text taken left := by
  obtain ⟨others, begins⟩ := List.head?_eq_some_iff.1 begins
  refine List.head?_eq_some_iff.2 ⟨others ++ second.cuts text, ?_⟩
  rw [cuts_either, begins, List.cons_append]

theorem either_right (fails : first.cuts text = []) (begins : Takes second text taken left) :
    Takes (.either first second) text taken left := by
  obtain ⟨others, begins⟩ := List.head?_eq_some_iff.1 begins
  refine List.head?_eq_some_iff.2 ⟨others, ?_⟩
  rw [cuts_either, fails, begins, List.nil_append]

/-- A repetition ends where no further round begins. -/
theorem many_end (ends : round.cuts text = []) : Takes (.many round) text [] text := by
  refine List.head?_eq_some_iff.2 ⟨[], ?_⟩
  rw [cuts_many, ends, List.flatMap_nil, List.nil_append]

/-- A repetition goes round once more where it can. -/
theorem many_more (begins : Takes round text taken left) (shorter : left.length < text.length)
    (goes_on : Takes (.many round) left more left') :
    Takes (.many round) text (taken ++ more) left' := by
  obtain ⟨others, begins⟩ := List.head?_eq_some_iff.1 begins
  obtain ⟨further, goes_on⟩ := List.head?_eq_some_iff.1 goes_on
  show ((Pattern.many round).cuts text).head? = _
  rw [cuts_many, begins, List.flatMap_cons, dif_pos shorter, goes_on]
  rfl

/-- The match of a repetition of characters of one class is the run of them. -/
theorem many_one (accepts : Char → Bool) (text : List Char) :
    Takes (.many (.one accepts)) text (text.takeWhile accepts) (text.dropWhile accepts) := by
  induction text with
  | nil => exact many_end rfl
  | cons c rest ih =>
    cases accepted : accepts c with
    | true =>
      rw [List.takeWhile_cons_of_pos accepted, List.dropWhile_cons_of_pos accepted]
      exact many_more (.one accepted rest) (by simp) ih
    | false =>
      rw [List.takeWhile_cons_of_neg (by simp [accepted]),
        List.dropWhile_cons_of_neg (by simp [accepted])]
      exact many_end (cuts_one_of_not rest accepted)

end Takes

/-! ## What a repetition can give back -/

section ManyOne

variable {accepts : Char → Bool} {c : Char} (rest : List Char)

theorem cuts_many_one_of_not (refused : accepts c = false) :
    (many (one accepts)).cuts (c :: rest) = [⟨[], c :: rest⟩] := by
  rw [cuts_many, cuts_one_of_not rest refused, List.flatMap_nil, List.nil_append]

theorem cuts_many_one (accepted : accepts c = true) :
    (many (one accepts)).cuts (c :: rest) =
      ((many (one accepts)).cuts rest).map (Cut.join ⟨[c], rest⟩) ++ [⟨[], c :: rest⟩] := by
  rw [cuts_many, cuts_one rest accepted, List.flatMap_singleton, dif_pos (by simp)]

end ManyOne

/-! ## Taking a text as a whole -/

/-- Whether a pattern can take a text as a whole. -/
def Accepts (pattern : Pattern) (text : List Char) : Prop :=
  ⟨text, []⟩ ∈ pattern.cuts text

/-- A repetition ends at once, or it goes round and begins again in what the round left. -/
theorem mem_cuts_many_iff {round : Pattern} {text : List Char} {cut : Cut} :
    cut ∈ (many round).cuts text ↔
      (∃ begun ∈ round.cuts text, begun.left.length < text.length ∧
        ∃ next ∈ (many round).cuts begun.left, begun.join next = cut) ∨ cut = ⟨[], text⟩ := by
  rw [cuts_many, List.mem_append, List.mem_singleton, List.mem_flatMap]
  refine or_congr_left (exists_congr fun begun => and_congr_right fun _ => ?_)
  by_cases shorter : begun.left.length < text.length
  · rw [dif_pos shorter, List.mem_map, and_iff_right shorter]
  · simp [shorter]

/-! ## Looking for matches -/

/-- What is met when the matches of a pattern are looked for: a match, or a character at
which none begins. -/
inductive Piece where
  | found (text : List Char)
  | passed (c : Char)
  deriving DecidableEq, Repr

/-- The pieces of a text.  Behind a match the search goes on where the match ended, and where
nothing matches it goes on at the next character; a match has to take something. -/
def pieces (pattern : Pattern) : List Char → List Piece
  | [] => []
  | c :: rest =>
    match (pattern.cuts (c :: rest)).head? with
    | none => .passed c :: pieces pattern rest
    | some cut =>
      if _shorter : cut.left.length < (c :: rest).length then
        .found cut.taken :: pieces pattern cut.left
      else .passed c :: pieces pattern rest
termination_by text => text.length
decreasing_by
  · exact Nat.lt_succ_self _
  · exact _shorter
  · exact Nat.lt_succ_self _

section Pieces

variable {pattern : Pattern} {c : Char} {rest taken left : List Char}

@[simp]
theorem pieces_nil : pattern.pieces [] = [] := by
  rw [pieces]

theorem pieces_of_takes (begins : pattern.Takes (c :: rest) taken left)
    (shorter : left.length < (c :: rest).length) :
    pattern.pieces (c :: rest) = .found taken :: pattern.pieces left := by
  rw [Takes] at begins
  rw [pieces, begins]
  exact dif_pos shorter

theorem pieces_of_no_match (unmatched : pattern.cuts (c :: rest) = []) :
    pattern.pieces (c :: rest) = .passed c :: pattern.pieces rest := by
  rw [pieces, unmatched]
  rfl

end Pieces

end Pattern

end Lisp
