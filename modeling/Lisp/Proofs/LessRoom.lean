import Lisp.Proofs.Reading
import Lisp.Proofs.Results

/-!
# Less room

There is no more room in one place than in another when all that fits into the first
fits into the second (`Room.AtMost`).  The reader needs room for open lists alone.  A form
that cannot be read is malformed, or its lists do not fit (`readInto_fails`), and with less
room a form reads the same or does not fit (`readInto_of_atMost`).
-/

set_option autoImplicit false

namespace Lisp

/-! ## Rooms -/

namespace Room

/-- Whether there is no more room than another. -/
def AtMost : Room → Room → Prop
  | _, .unlimited => True
  | .frames left, .frames left' => left ≤ left'
  | .unlimited, .frames _ => False

theorem leave_of_enter? {room inner : Room} {cost : Nat}
    (entered : room.enter? cost = some inner) : inner.leave cost = room := by
  cases room with
  | unlimited =>
    cases entered
    rfl
  | frames left =>
    simp only [enter?] at entered
    split at entered
    · next fits =>
      cases entered
      rw [leave, Nat.sub_add_cancel fits]
    · cases entered

theorem leave_zero (room : Room) : room.leave 0 = room := by
  cases room <;> rfl

theorem leave_add (room : Room) (cost cost' : Nat) :
    room.leave (cost + cost') = (room.leave cost).leave cost' := by
  cases room with
  | unlimited => rfl
  | frames left => rw [leave, leave, leave, Nat.add_assoc]

theorem AtMost.trans {small middle large : Room} (first : small.AtMost middle)
    (second : middle.AtMost large) : small.AtMost large := by
  cases large with
  | unlimited => cases small <;> trivial
  | frames left'' =>
    cases middle with
    | unlimited => exact second.elim
    | frames left' =>
      cases small with
      | unlimited => exact first.elim
      | frames left => exact Nat.le_trans first second

theorem atMost_of_enter? {room inner : Room} {cost : Nat}
    (entered : room.enter? cost = some inner) : inner.AtMost room := by
  cases room with
  | unlimited => cases inner <;> trivial
  | frames left =>
    simp only [enter?] at entered
    split at entered
    · cases entered
      exact Nat.sub_le left cost
    · cases entered

theorem AtMost.leave {small large : Room} (atMost : small.AtMost large) (cost : Nat) :
    (small.leave cost).AtMost (large.leave cost) := by
  cases large with
  | unlimited => cases small <;> trivial
  | frames left' =>
    cases small with
    | unlimited => exact atMost.elim
    | frames left => exact Nat.add_le_add_right atMost cost

/-- What fits into less room fits into more. -/
theorem AtMost.enter? {small large inner : Room} {cost : Nat} (atMost : small.AtMost large)
    (entered : small.enter? cost = some inner) :
    ∃ inner', large.enter? cost = some inner' ∧ inner.AtMost inner' := by
  cases large with
  | unlimited => exact ⟨.unlimited, rfl, by cases inner <;> trivial⟩
  | frames left' =>
    cases small with
    | unlimited => exact atMost.elim
    | frames left =>
      simp only [Room.enter?] at entered ⊢
      split at entered
      · next fits =>
        cases entered
        rw [if_pos (Nat.le_trans fits atMost)]
        exact ⟨_, rfl, Nat.sub_le_sub_right atMost cost⟩
      · cases entered

/-- A level fits into a room that has as much left, and leaves the rest. -/
theorem exists_enter? {room : Room} (left cost : Nat)
    (roomy : (Room.frames (left + cost)).AtMost room) :
    ∃ inner, room.enter? cost = some inner ∧ (Room.frames left).AtMost inner := by
  have entered : (Room.frames (left + cost)).enter? cost = some (.frames left) := by
    rw [enter?, if_pos (Nat.le_add_left cost left), Nat.add_sub_cancel]
  exact roomy.enter? entered

end Room

/-! ## Reading -/

/-- An atom that cannot be read is a malformed number or an unbalanced string. -/
theorem isA_malformed_of_ofAtom {token : String} {error : Error}
    (fails : Value.ofAtom token = .error error) :
    error ≠ .unexpectedClose ∧ error.category.isA .malformed = true := by
  unfold Value.ofAtom at fails
  dsimp only at fails
  repeat' split at fails
  all_goals cases fails
  · exact ⟨nofun, rfl⟩
  · exact ⟨nofun, rfl⟩

/-- **A form that cannot be read is malformed, or open lists used up the room.** -/
theorem readInto_fails (room : Room) (openLists : List (List Value)) (tokens : List String)
    (failure : Failure) :
    (readInto room openLists tokens).result = .error failure →
      failure = .fault .stackExhausted ∧ room ≠ .unlimited ∨
        ∃ error : Error, failure = .error error ∧ error.category.isA .malformed = true := by
  fun_induction readInto room openLists tokens with
  | case1 | case2 | case5 =>
    rintro ⟨⟩
    exact .inr ⟨_, rfl, rfl⟩
  | case3 room openLists rest full =>
    rintro ⟨⟩
    refine .inl ⟨rfl, ?_⟩
    rintro rfl
    cases full
  | case4 room openLists rest inner entered ih =>
    intro fails
    refine (ih fails).imp_left fun exhausted => ⟨exhausted.1, ?_⟩
    rintro rfl
    cases entered
    exact exhausted.2 rfl
  | case6 | case9 =>
    intro fails
    cases fails
  | case7 room rest items around further notOpen ih =>
    intro fails
    refine (ih fails).imp_left fun exhausted => ⟨exhausted.1, ?_⟩
    rintro rfl
    exact exhausted.2 rfl
  | case8 room openLists token rest notOpen notClose error atom =>
    rintro ⟨⟩
    exact .inr ⟨error, rfl, (isA_malformed_of_ofAtom atom).2⟩
  | case10 room token rest notOpen notClose value atom items further ih => exact ih

theorem readText_eq (room : Room) {source : String} (nonempty : tokenize source ≠ []) :
    readText room source =
      (readInto room [] (tokenize source)).result.mapError Failure.ofReading := by
  have some_tokens : (tokenize source).isEmpty = false := by simpa using nonempty
  unfold readText readNested readForm
  simp only [some_tokens, Bool.false_eq_true, if_false]
  split
  · next read =>
    rw [read]
    rfl
  · next read =>
    rw [read]
    rfl

/-- A text without a first form is malformed, or nests too deep for the room. -/
theorem readText_fails {room : Room} {source : String} {failure : Failure}
    (fails : readText room source = .error failure) :
    ∃ error, failure = .error error ∧ (error.category.isA .malformed = true ∨
      error = .readingTooDeep ∧ room ≠ .unlimited) := by
  by_cases nonempty : tokenize source = []
  · rw [readText, nonempty] at fails
    cases fails
    exact ⟨.noForm, rfl, .inl rfl⟩
  · rw [readText_eq room nonempty] at fails
    cases read : (readInto room [] (tokenize source)).result with
    | ok value =>
      rw [read] at fails
      cases fails
    | error inner =>
      rw [read] at fails
      cases fails
      rcases readInto_fails room [] _ inner read with ⟨rfl, limited⟩ | ⟨error, rfl, malformed⟩
      · exact ⟨.readingTooDeep, rfl, .inr ⟨rfl, limited⟩⟩
      · exact ⟨error, rfl, .inl malformed⟩

/-- **With less room a form reads as it does with more, or the room is used up.** -/
theorem readInto_of_atMost {small large : Room} (atMost : small.AtMost large)
    (openLists : List (List Value)) (tokens : List String) :
    (readInto small openLists tokens).result = .error (.fault .stackExhausted) ∨
      readInto large openLists tokens = readInto small openLists tokens := by
  fun_induction readInto small openLists tokens generalizing large with
  | case1 | case2 => exact .inr rfl
  | case3 small openLists rest full => exact .inl rfl
  | case4 small openLists rest inner entered ih =>
    obtain ⟨inner', entered', atMost'⟩ := atMost.enter? entered
    rw [readInto_open _ _ entered']
    exact ih atMost'
  | case5 | case6 => exact .inr rfl
  | case7 small rest items around further notOpen ih =>
    rw [readInto_close, readOn]
    exact ih (atMost.leave Room.reading)
  | case8 small openLists token rest notOpen notClose error atom =>
    exact .inr (readInto_atom_of_error _ _ notOpen notClose atom)
  | case9 small token rest notOpen notClose value atom =>
    exact .inr (readInto_atom _ _ notOpen notClose atom)
  | case10 small token rest notOpen notClose value atom items further ih =>
    rw [readInto_atom _ _ notOpen notClose atom, readOn]
    exact ih atMost

theorem readInto_of_readNested {room : Room} {tokens : List String} {value : Value}
    {rest : List String} (success : readNested room tokens = ⟨.ok value, rest⟩) :
    readInto room [] tokens = ⟨.ok value, rest⟩ := by
  unfold readNested readForm at success
  split at success
  · next form =>
    rw [form, success]
  · cases success

theorem readInto_of_readNested_error {room : Room} {tokens : List String} {failure : Failure}
    {rest : List String} (fails : readNested room tokens = ⟨.error failure, rest⟩) :
    ∃ inner : Failure, readInto room [] tokens = ⟨.error inner, rest⟩ ∧ failure = inner.ofReading := by
  unfold readNested readForm at fails
  split at fails
  · cases fails
  · next inner left form =>
    cases fails
    exact ⟨inner, form, rfl⟩

theorem readNested_of_atMost {small large : Room} (atMost : small.AtMost large)
    {tokens : List String} {value : Value} {rest : List String}
    (success : readNested small tokens = ⟨.ok value, rest⟩) :
    readNested large tokens = ⟨.ok value, rest⟩ := by
  have form := readInto_of_readNested success
  rcases readInto_of_atMost atMost [] tokens with exhausted | same
  · rw [form] at exhausted
    cases exhausted
  · rw [readNested, readForm, same, form]

theorem readAllOnto_of_atMost {small large : Room} (atMost : small.AtMost large)
    (forms : List Value) (tokens : List String)
    (complete : (readAllOnto small forms tokens).failure? = none) :
    readAllOnto large forms tokens = readAllOnto small forms tokens := by
  fun_induction readAllOnto small forms tokens with
  | case1 forms tokens noTokens =>
    obtain rfl := List.isEmpty_iff.1 noTokens
    exact readAllOnto_nil large forms
  | case2 forms tokens someTokens value rest read ih =>
    rw [readAllOnto_of_ok (readNested_of_atMost atMost read)]
    exact ih complete
  | case3 forms tokens someTokens failure rest read => cases complete

/-- **A source text that can be read with less room reads the same with more.** -/
theorem readProgram_of_atMost {small large : Room} (atMost : small.AtMost large) {source : String}
    {forms : List Value} (success : readProgram small source = .ok forms) :
    readProgram large source = .ok forms := by
  unfold readProgram readSource readAll at success ⊢
  dsimp only at success ⊢
  split at success
  · next complete =>
    rw [readAllOnto_of_atMost atMost [] _ complete, complete]
    exact success
  · cases success

end Lisp
