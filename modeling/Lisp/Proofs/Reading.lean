import Lisp.Form

/-!
# Reading step by step

A token does one of three things: it opens a list, closes the innermost one, or is an
atom.  A value that is complete is the form if no list is open, and the next item of
the innermost open list if there is one (`readOn`).

Reading all forms goes on from form to form, and stops at the first that fails.
-/

set_option autoImplicit false

namespace Lisp

/-! ## One token -/

/-- Reading from a complete value on: it is the form when no list is open, and else
the next item of the innermost one. -/
def readOn (room : Room) (openLists : List (List Value)) (value : Value) (rest : List String) :
    Reading Value :=
  match openLists with
  | [] => ⟨.ok value, rest⟩
  | items :: further => readInto room ((value :: items) :: further) rest

section Token

variable {room : Room} (openLists : List (List Value)) (rest : List String)

theorem readInto_open {inner : Room} (entered : room.enter? Room.reading = some inner) :
    readInto room openLists ("(" :: rest) = readInto inner ([] :: openLists) rest := by
  rw [readInto.eq_def]
  simp only [entered, if_true]

theorem readInto_open_of_full (full : room.enter? Room.reading = none) :
    readInto room openLists ("(" :: rest) = ⟨.error (.fault .stackExhausted), rest⟩ := by
  rw [readInto.eq_def]
  simp only [full, if_true]

theorem readInto_close (items : List Value) :
    readInto room (items :: openLists) (")" :: rest) =
      readOn (room.leave Room.reading) openLists (.list items.reverse) rest := by
  rw [readInto.eq_def]
  cases openLists <;> rfl

variable {token : String}

theorem readInto_atom {value : Value} (notOpen : token ≠ "(") (notClose : token ≠ ")")
    (atom : Value.ofAtom token = .ok value) :
    readInto room openLists (token :: rest) = readOn room openLists value rest := by
  rw [readInto.eq_def]
  simp only [notOpen, notClose, atom, if_false]
  cases openLists <;> rfl

theorem readInto_atom_of_error {error : Error} (notOpen : token ≠ "(") (notClose : token ≠ ")")
    (atom : Value.ofAtom token = .error error) :
    readInto room openLists (token :: rest) = ⟨.error (.error error), rest⟩ := by
  rw [readInto.eq_def]
  simp only [notOpen, notClose, atom, if_false]

end Token

/-! ## Form by form -/

@[simp]
theorem readAllOnto_nil (room : Room) (forms : List Value) :
    readAllOnto room forms [] = ⟨forms.reverse, none, []⟩ := by
  rw [readAllOnto]
  rfl

/-- A form is read from one token at least. -/
theorem ne_nil_of_readNested {room : Room} {tokens : List String} {value : Value}
    {rest : List String} (success : readNested room tokens = ⟨.ok value, rest⟩) : tokens ≠ [] := by
  rintro rfl
  have := length_rest_of_readNested success
  simp at this

theorem readAllOnto_of_ok {room : Room} {tokens : List String} {value : Value}
    {rest : List String} (success : readNested room tokens = ⟨.ok value, rest⟩)
    (forms : List Value) :
    readAllOnto room forms tokens = readAllOnto room (value :: forms) rest := by
  have nonempty := ne_nil_of_readNested success
  rw [readAllOnto, if_neg (by simpa using nonempty)]
  split
  · next found =>
    rw [success] at found
    cases found
    rfl
  · next found =>
    rw [success] at found
    cases found

theorem readAllOnto_of_error {room : Room} {tokens : List String} {failure : Failure}
    {rest : List String} (nonempty : tokens ≠ [])
    (fails : readNested room tokens = ⟨.error failure, rest⟩) (forms : List Value) :
    readAllOnto room forms tokens = ⟨forms.reverse, some failure, rest⟩ := by
  rw [readAllOnto, if_neg (by simpa using nonempty)]
  split
  · next found =>
    rw [fails] at found
    cases found
  · next found =>
    rw [fails] at found
    cases found
    rfl

end Lisp
