import Lisp.Proofs.LessRoom

/-!
# Reading a text inside a list

A text can be read form by form, or as the items of a list that is open around it and
is closed behind it.  The tokens inside are those of the text as far as these are good,
and then either the end of the list or a token that no reader takes (`Inside`).

Inside the list the same forms are read, and the reader fails where it failed alone,
with one exception: a parenthesis that closes nothing in the text closes the list
around it, and what stands behind it is never looked at (`readAllOnto_inside`).
Reading inside may need more room than there is.
-/

set_option autoImplicit false

namespace Lisp

/-! ## Tokens inside a list -/

/-- The tokens of a text, and the tokens that stand for it inside a list: the same ones to
the end and then what closes the list, or the same ones up to a token that cannot be
read, and such a token in its place. -/
inductive Inside : List String → List String → Prop where
  | closing : Inside [] ["nil", ")"]
  | bad {token token' : String} (others : List String)
      (unbalanced : Value.ofAtom token = .error (.unbalancedString token))
      (unbalanced' : Value.ofAtom token' = .error (.unbalancedString token')) :
      Inside (token :: others) [token']
  | same (token : String) {tokens tokens' : List String} :
      Inside tokens tokens' → Inside (token :: tokens) (token :: tokens')

theorem ne_paren_of_unbalanced {token : String}
    (unbalanced : Value.ofAtom token = .error (.unbalancedString token)) :
    token ≠ "(" ∧ token ≠ ")" := by
  constructor
  · rintro rfl
    cases unbalanced
  · rintro rfl
    cases unbalanced

theorem readInto_nil (room : Room) (items : List Value) (openLists : List (List Value))
    (rest : List String) :
    readInto room (items :: openLists) ("nil" :: rest) =
      readInto room ((.nil :: items) :: openLists) rest :=
  readInto_atom _ rest (by decide) (by decide) rfl

/-- When a list inside the one around the text is still open, the text does not end well. -/
theorem readInto_closing_of_open (room : Room) (items base : List Value)
    (openLists : List (List Value)) :
    (readInto room ((items :: openLists) ++ [base]) ["nil", ")"]).result =
      .error (.error .endInList) := by
  rw [List.cons_append, readInto_nil, readInto_close]
  cases openLists <;> rfl

/-- How reading goes inside a list that holds `base` so far, as seen from how it goes alone:
there is no room for it, the same form becomes the next item, a parenthesis too many
closes the list, or reading fails inside as it fails alone. -/
inductive ReadsInside (room : Room) (base : List Value) (alone inside : Reading Value) : Prop where
  | exhausted : inside.result = .error (.fault .stackExhausted) → ReadsInside room base alone inside
  | complete {value : Value} {rest rest' : List String} : alone = ⟨.ok value, rest⟩ →
      Inside rest rest' → inside = readInto room [value :: base] rest' →
        ReadsInside room base alone inside
  | closed : alone.result = .error (.error .unexpectedClose) →
      inside.result = .ok (.list base.reverse) → ReadsInside room base alone inside
  | malformed {error error' : Error} : alone.result = .error (.error error) →
      error ≠ .unexpectedClose → inside.result = .error (.error error') →
        error'.category.isA .malformed = true → ReadsInside room base alone inside

/-- **Reading to the end of a form goes inside a list as it goes alone.** -/
theorem readInto_inside {tokens tokens' : List String} (stands : Inside tokens tokens')
    {small large : Room} (atMost : small.AtMost large) (base : List Value)
    (openLists : List (List Value)) (some_left : tokens ≠ [] ∨ openLists ≠ []) :
    ReadsInside (small.leave (Room.reading * openLists.length)) base
      (readInto large openLists tokens) (readInto small (openLists ++ [base]) tokens') := by
  -- The open lists of the text lie on the one around it, which comes into play with none left.
  induction stands generalizing small large openLists with
  | closing =>
    cases openLists with
    | nil => simp at some_left
    | cons items further =>
      have unfinished := readInto_closing_of_open small items base further
      have alone : (readInto large (items :: further) []).result = .error (.error .endInList) := by
        rw [readInto]
      exact .malformed alone (by simp) unfinished rfl
  | @bad token token' others unbalanced unbalanced' =>
    obtain ⟨notOpen, notClose⟩ := ne_paren_of_unbalanced unbalanced
    obtain ⟨notOpen', notClose'⟩ := ne_paren_of_unbalanced unbalanced'
    rw [readInto_atom_of_error _ _ notOpen notClose unbalanced,
      readInto_atom_of_error _ _ notOpen' notClose' unbalanced']
    exact .malformed rfl (by simp) rfl rfl
  | @same token tokens tokens' stands ih =>
    by_cases opens : token = "("
    · subst opens
      cases entered : small.enter? Room.reading with
      | none =>
        rw [readInto_open_of_full _ _ entered]
        exact .exhausted rfl
      | some inner =>
        obtain ⟨inner', entered', atMost'⟩ := atMost.enter? entered
        have outside := Room.leave_of_enter? entered
        have further := ih atMost' ([] :: openLists) (.inr (by simp))
        rw [List.length_cons, Nat.mul_add_one, Nat.add_comm, Room.leave_add, outside] at further
        rw [readInto_open _ _ entered, readInto_open _ _ entered']
        exact further
    by_cases closes : token = ")"
    · subst closes
      cases openLists with
      | nil =>
        refine .closed (by rw [readInto]; simp) ?_
        rw [List.nil_append, readInto_close]
        rfl
      | cons items outer =>
        rw [readInto_close, List.cons_append, readInto_close]
        cases outer with
        | nil => exact .complete rfl stands (by simp [readOn])
        | cons around further =>
          have later := ih (atMost.leave Room.reading) ((.list items.reverse :: around) :: further)
            (.inr (by simp))
          rw [List.length_cons, ← Room.leave_add, Nat.add_comm, ← Nat.mul_add_one] at later
          exact later
    · cases atom : Value.ofAtom token with
      | error error =>
        rw [readInto_atom_of_error _ _ opens closes atom, readInto_atom_of_error _ _ opens closes atom]
        have malformed := isA_malformed_of_ofAtom atom
        exact .malformed rfl malformed.1 rfl malformed.2
      | ok value =>
        rw [readInto_atom _ _ opens closes atom, readInto_atom _ _ opens closes atom]
        cases openLists with
        | nil => exact .complete rfl stands (by simp [readOn, Room.leave_zero])
        | cons items further => exact ih atMost ((value :: items) :: further) (.inr (by simp))

/-! ## All forms -/

/-- How reading all forms of a text goes inside a list, as seen from how it goes alone. -/
inductive ReadsAllInside (base : List Value) (alone : Forms) (inside : Reading Value) : Prop where
  | exhausted : inside.result = .error (.fault .stackExhausted) → ReadsAllInside base alone inside
  | complete : alone.failure? = none →
      inside.result = .ok (.list (base.reverse ++ alone.forms ++ [.nil])) →
        ReadsAllInside base alone inside
  | closed : alone.failure? = some (.error .unexpectedClose) →
      inside.result = .ok (.list (base.reverse ++ alone.forms)) → ReadsAllInside base alone inside
  | malformed {error error' : Error} : alone.failure? = some (.error error) →
      error ≠ .unexpectedClose → inside.result = .error (.error error') →
        error'.category.isA .malformed = true → ReadsAllInside base alone inside

/-- **Reading all forms goes inside a list as it goes alone, but for a parenthesis that
closes nothing in the text: that one closes the list.** -/
theorem readAllOnto_inside {tokens tokens' : List String} (stands : Inside tokens tokens')
    {small large : Room} (atMost : small.AtMost large) (base forms : List Value) :
    ReadsAllInside base (readAllOnto large forms tokens)
      (readInto small [forms ++ base] tokens') := by
  fun_induction readAllOnto large forms tokens generalizing tokens' with
  | case1 forms tokens noTokens =>
    obtain rfl := List.isEmpty_iff.1 noTokens
    cases stands
    refine .complete rfl ?_
    rw [readInto_nil, readInto_close, readOn]
    simp
  | case2 forms tokens someTokens value rest read ih =>
    have inside := readInto_inside stands atMost (forms ++ base) []
      (.inl (ne_nil_of_readNested read))
    have form := readInto_of_readNested read
    rw [form] at inside
    cases inside with
    | exhausted fails => exact .exhausted fails
    | closed fails _ => cases fails
    | malformed fails _ _ _ => cases fails
    | complete same stands' goes_on =>
      cases same
      have further := ih stands'
      rw [List.nil_append] at goes_on
      rw [goes_on, List.length_nil, Nat.mul_zero, Room.leave_zero]
      exact further
  | case3 forms tokens someTokens failure rest read =>
    have inside := readInto_inside stands atMost (forms ++ base) []
      (.inl (by simpa using someTokens))
    obtain ⟨failure, form, rfl⟩ := readInto_of_readNested_error read
    rw [form] at inside
    cases inside with
    | exhausted fails => exact .exhausted fails
    | closed fails closes =>
      cases fails
      exact .closed rfl (by simpa using closes)
    | malformed fails others fails' malformed =>
      cases fails
      exact .malformed rfl others fails' malformed
    | complete same _ _ => cases same

end Lisp
