import Lisp.TokenCursor
import Lisp.Proofs.AtomGrammar
import Lisp.Proofs.Reading

/-!
# Where a cursor goes

Reading a form from a position depends on the tokens that it takes, on none before them and on
none behind them (`reading_is_local`).  It stops behind a token, the last one of the form or one
that is no atom, and goes alike whatever comes behind that.  There are two exceptions: a
parenthesis that closes nothing is looked at and left, and a form that is not complete takes all
the tokens (`Stops`).

So from every position a form is read up to one that is not before it and not past the end, and
a form that is read moves the position (`exists_readsUpTo`).  That is why reading form after form
comes to an end (`exists_drains`).
-/

set_option autoImplicit false

namespace Lisp

/-! ## How a reading stops -/

/-- How a reading with open lists stops: behind a token, whatever the tokens are that follow,
and if it fails with an error, then with that of the token; or at a parenthesis that closes
nothing; or at the end of the tokens. -/
inductive Stops (room : Room) (openLists : List (List Value)) : List String → Reading Value → Prop
  where
  | behind (before : List String) {token : String} {rest : List String}
      {result : Except Failure Value} :
      (∀ others, readInto room openLists (before ++ token :: others) = ⟨result, others⟩) →
      (∀ error, result = .error (.error error) → Value.ofAtom token = .error error) →
        Stops room openLists (before ++ token :: rest) ⟨result, rest⟩
  | close {further : List String} : openLists = [] →
      Stops room openLists (")" :: further) ⟨.error (.error .unexpectedClose), ")" :: further⟩
  | inForm : openLists = [] → Stops room openLists [] ⟨.error (.error .endInForm), []⟩
  | inList {tokens : List String} : Stops room openLists tokens ⟨.error (.error .endInList), []⟩

/-- A token that is taken inside a list puts off how the reading stops. -/
theorem Stops.after_token {room inner : Room} {openLists within : List (List Value)} {token : String}
    (goes_on : ∀ others, readInto room openLists (token :: others) = readInto inner within others)
    (inside : within ≠ []) {rest : List String} {reading : Reading Value}
    (stops : Stops inner within rest reading) : Stops room openLists (token :: rest) reading := by
  cases stops with
  | behind before alike fails =>
    refine .behind (token :: before) (fun others => ?_) fails
    rw [List.cons_append, goes_on, alike]
  | close outside => exact absurd outside inside
  | inForm outside => exact absurd outside inside
  | inList => exact .inList

/-- **Every reading stops in one of these ways.** -/
theorem readInto_stops (room : Room) (openLists : List (List Value)) (tokens : List String) :
    Stops room openLists tokens (readInto room openLists tokens) := by
  fun_induction readInto room openLists tokens with
  | case1 => exact .inForm rfl
  | case2 => exact .inList
  | case3 room openLists rest full =>
    refine .behind [] (fun others => readInto_open_of_full _ others full) ?_
    rintro _ ⟨⟩
  | case4 room openLists rest inner entered ih =>
    exact ih.after_token (fun others => readInto_open _ others entered) (List.cons_ne_nil _ _)
  | case5 => exact .close rfl
  | case6 room rest items =>
    refine .behind [] (fun others => readInto_close _ others items) ?_
    rintro _ ⟨⟩
  | case7 room rest items around further _ ih =>
    exact ih.after_token (fun others => readInto_close _ others items) (List.cons_ne_nil _ _)
  | case8 room openLists token rest notOpen notClose error atom =>
    refine .behind []
      (fun others => readInto_atom_of_error _ others notOpen notClose atom) ?_
    rintro _ ⟨⟩
    exact atom
  | case9 room token rest notOpen notClose value atom =>
    refine .behind [] (fun others => readInto_atom _ others notOpen notClose atom) ?_
    rintro _ ⟨⟩
  | case10 room token rest notOpen notClose value atom items further ih =>
    exact ih.after_token (fun others => readInto_atom _ others notOpen notClose atom)
      (List.cons_ne_nil _ _)

/-! ## Positions -/

/-- The cursor at a position of tokens. -/
def TokenCursor.standingAt (tokens : List String) (position : Nat) : TokenCursor :=
  ⟨position, tokens.drop position⟩

/-- Whether other tokens are the same from one position up to another. -/
def SameBetween (tokens others : List String) (position next : Nat) : Prop :=
  ∀ place, position ≤ place → place < next → others[place]? = tokens[place]?

/-- What is left behind some of the tokens at a position are those from a later position on. -/
theorem eq_drop_of_split {tokens taken rest : List String} {position : Nat}
    (split : tokens.drop position = taken ++ rest) :
    rest = tokens.drop (position + taken.length) := by
  rw [← List.drop_drop, split, List.drop_left]

/-- Tokens that are the same between two positions begin alike at the first. -/
theorem drop_of_sameBetween {tokens others taken rest : List String} {position : Nat}
    (split : tokens.drop position = taken ++ rest)
    (same : SameBetween tokens others position (position + taken.length)) :
    others.drop position = taken ++ others.drop (position + taken.length) := by
  have begins : (others.drop position).take taken.length = taken := by
    refine List.ext_getElem? fun place => ?_
    by_cases inside : place < taken.length
    · have at_place := congrArg (·[place]?) split
      simp only [List.getElem?_drop, List.getElem?_append_left inside] at at_place
      rw [List.getElem?_take_of_lt inside, List.getElem?_drop, same _ (by omega) (by omega), at_place]
    · rw [List.getElem?_eq_none (by simp; omega), List.getElem?_eq_none (by omega)]
  rw [← List.take_append_drop taken.length (others.drop position), begins, List.drop_drop]

/-- A reader that takes some of the tokens leaves the cursor behind them. -/
theorem TokenCursor.read_of_split {α : Type} {tokens taken rest : List String} {position : Nat}
    (split : tokens.drop position = taken ++ rest) {reader : List String → Reading α}
    {result : Except Failure α} (reads : reader (taken ++ rest) = ⟨result, rest⟩) :
    (standingAt tokens position).read reader =
      (result, standingAt tokens (position + taken.length)) := by
  have pending : (standingAt tokens position).pending = taken ++ rest := split
  simp only [read, pending, reads, leaving, List.length_append, Nat.add_sub_cancel]
  rw [standingAt, standingAt, ← eq_drop_of_split split]

/-- Reading all forms from a position goes on to where the tokens that are left begin. -/
theorem TokenCursor.readAll_standingAt {room : Room} {tokens : List String} {position final : Nat}
    {forms : List Value} {failure? : Option Failure} (later : position ≤ final)
    (fits : final ≤ tokens.length)
    (read : Lisp.readAll room (tokens.drop position) = ⟨forms, failure?, tokens.drop final⟩) :
    (standingAt tokens position).readAll room =
      (⟨forms, failure?, tokens.drop final⟩, standingAt tokens final) := by
  simp only [readAll, standingAt, read, leaving, List.length_drop, Prod.mk.injEq,
    TokenCursor.mk.injEq, and_true, true_and]
  omega

/-! ## One form -/

/-- Where a token stands that cannot be read, and the position at which reading stops for it:
a parenthesis that closes nothing is left, and any other such token is taken. -/
inductive OffendsAt (tokens : List String) : Error → Nat → Nat → Prop where
  | close {place : Nat} : tokens[place]? = some ")" →
      OffendsAt tokens .unexpectedClose place place
  | atom {place : Nat} {token : String} {error : Error} : tokens[place]? = some token →
      IsIllFormedAtom token error → OffendsAt tokens error place (place + 1)

/-- Reads a form from a position on. -/
def readFormFrom (room : Room) (tokens : List String) (position : Nat) :
    Except Failure Value × TokenCursor :=
  (TokenCursor.standingAt tokens position).read (readForm room)

/-- Whether a form is read from one position up to another, and what comes before and behind has
no part in it. -/
structure ReadsUpTo (room : Room) (tokens : List String) (position next : Nat) : Prop where
  stands : (readFormFrom room tokens position).2 = .standingAt tokens next
  forward : position ≤ next
  fits : next ≤ tokens.length
  /-- A form that is read moves the position, and is read alike from tokens that are the same
  in between. -/
  form : ∀ value, (readFormFrom room tokens position).1 = .ok value → position < next ∧
    ∀ others, SameBetween tokens others position next →
      readFormFrom room others position = (.ok value, .standingAt others next)
  /-- An error of malformed tokens is that of one token, whatever stands behind it. -/
  malformed : ∀ error, (readFormFrom room tokens position).1 = .error (.error error) →
    error.category = .malformed → ∃ place, position ≤ place ∧ OffendsAt tokens error place next ∧
      ∀ others, SameBetween tokens others position (place + 1) →
        readFormFrom room others position = (.error (.error error), .standingAt others next)
  /-- A list that is not complete is read to the end. -/
  incomplete : (readFormFrom room tokens position).1 = .error (.error .endInList) →
    next = tokens.length

section Form

variable {room : Room} {tokens : List String} {position : Nat}

/-- A form that stops behind a token is read alike wherever the tokens up to it are the same. -/
theorem readFormFrom_of_behind {others before rest : List String} {token : String}
    {result : Except Failure Value}
    (alike : ∀ others, readInto room [] (before ++ token :: others) = ⟨result, others⟩)
    (split : tokens.drop position = before ++ token :: rest)
    (same : SameBetween tokens others position (position + before.length + 1)) :
    readFormFrom room others position =
      (result, .standingAt others (position + before.length + 1)) := by
  have length : position + before.length + 1 = position + (before ++ [token]).length := by
    rw [List.length_append, List.length_singleton, Nat.add_assoc]
  rw [List.append_cons] at split
  rw [length] at same ⊢
  refine TokenCursor.read_of_split (drop_of_sameBetween split same) ?_
  rw [← List.append_cons]
  exact alike _

theorem readsUpTo_of_behind {before rest : List String} {token : String}
    {result : Except Failure Value}
    (alike : ∀ others, readInto room [] (before ++ token :: others) = ⟨result, others⟩)
    (fails : ∀ error, result = .error (.error error) → Value.ofAtom token = .error error)
    (split : tokens.drop position = before ++ token :: rest) :
    ReadsUpTo room tokens position (position + before.length + 1) := by
  have here := readFormFrom_of_behind alike split fun _ _ _ => rfl
  have lengths := congrArg List.length split
  rw [List.length_drop, List.length_append, List.length_cons] at lengths
  refine ⟨by rw [here], by omega, by omega, ?_, ?_, ?_⟩ <;> rw [here]
  · rintro value rfl
    exact ⟨by omega, fun others same => readFormFrom_of_behind alike split same⟩
  · rintro error rfl -
    have at_place : tokens[position + before.length]? = some token := by
      rw [← List.getElem?_drop, split, List.getElem?_append_right (Nat.le_refl _),
        Nat.sub_self, List.getElem?_cons_zero]
    exact ⟨_, by omega, .atom at_place ((ofAtom_error_iff token error).1 (fails error rfl)),
      fun others same => readFormFrom_of_behind alike split same⟩
  · rintro rfl
    cases (ofAtom_error_iff token _).1 (fails _ rfl)

/-- A parenthesis that closes nothing stops reading wherever it stands at the position. -/
theorem readFormFrom_of_close {others further : List String}
    (split : tokens.drop position = ")" :: further)
    (same : SameBetween tokens others position (position + 1)) :
    readFormFrom room others position =
      (.error (.error .unexpectedClose), .standingAt others position) := by
  have begins := @drop_of_sameBetween tokens others [")"] further position split same
  exact @TokenCursor.read_of_split Value others [] _ position begins _ _ rfl

theorem readsUpTo_of_close {further : List String} (within : position ≤ tokens.length)
    (split : tokens.drop position = ")" :: further) : ReadsUpTo room tokens position position := by
  have here : readFormFrom room tokens position = _ :=
    readFormFrom_of_close split fun _ _ _ => rfl
  refine ⟨by rw [here], Nat.le_refl _, within, ?_, ?_, ?_⟩ <;> rw [here]
  · rintro _ ⟨⟩
  · rintro error ⟨⟩ -
    have at_place : tokens[position]? = some ")" := by
      rw [← List.head?_drop, split, List.head?_cons]
    exact ⟨position, Nat.le_refl _, .close at_place, fun others => readFormFrom_of_close split⟩
  · rintro ⟨⟩

/-- A form that is not complete is read to the end. -/
theorem readsUpTo_of_unfinished (within : position ≤ tokens.length) {error : Error}
    (unfinished : error.category = .unfinished)
    (reads : readInto room [] (tokens.drop position) = ⟨.error (.error error), []⟩) :
    ReadsUpTo room tokens position tokens.length := by
  have length : position + (tokens.drop position).length = tokens.length := by
    rw [List.length_drop]
    omega
  rw [← List.append_nil (tokens.drop position)] at reads
  have here : readFormFrom room tokens position = (_, _) :=
    TokenCursor.read_of_split (List.append_nil _).symm reads
  rw [length] at here
  refine ⟨by rw [here], within, Nat.le_refl _, ?_, ?_, fun _ => rfl⟩ <;> rw [here]
  · rintro _ ⟨⟩
  · rintro _ ⟨⟩ malformed
    rw [unfinished] at malformed
    cases malformed

/-- **A form is read from every position up to another one.** -/
theorem exists_readsUpTo (within : position ≤ tokens.length) :
    ∃ next, ReadsUpTo room tokens position next := by
  have stops := readInto_stops room [] (tokens.drop position)
  generalize split : tokens.drop position = pending at stops
  generalize reads : readInto room [] pending = read at stops
  cases stops with
  | behind before alike fails => exact ⟨_, readsUpTo_of_behind alike fails split⟩
  | close _ => exact ⟨_, readsUpTo_of_close within split⟩
  | inForm _ => exact ⟨_, readsUpTo_of_unfinished within rfl (by rw [split, reads])⟩
  | inList => exact ⟨_, readsUpTo_of_unfinished within rfl (by rw [split, reads])⟩

end Form

/-! ## Form after form -/

/-- Reading form after form from a cursor on: until all tokens are taken, or up to a form that
fails. -/
inductive Drains (room : Room) :
    TokenCursor → List Value → Option Failure → TokenCursor → Prop where
  | ends {cursor : TokenCursor} : cursor.atEnd = true → Drains room cursor [] none cursor
  | form {cursor next final : TokenCursor} {value : Value} {forms : List Value}
      {failure? : Option Failure} : cursor.atEnd = false →
      cursor.read (readNested room) = (.ok value, next) → Drains room next forms failure? final →
        Drains room cursor (value :: forms) failure? final
  | fails {cursor next : TokenCursor} {failure : Failure} : cursor.atEnd = false →
      cursor.read (readNested room) = (.error failure, next) →
        Drains room cursor [] (some failure) next

/-- What reading for a program leaves is what reading leaves, and it reads the same forms. -/
theorem readNested_eq (room : Room) (tokens : List String) :
    readNested room tokens =
      ⟨(readForm room tokens).result.mapError Failure.ofReading, (readForm room tokens).rest⟩ := by
  unfold readNested
  split
  · next read => rw [read]; rfl
  · next read => rw [read]; rfl

/-- **Reading form after form comes to an end from every position**, behind as many forms at most
as tokens were taken, and if no form failed, then all tokens were. -/
theorem exists_drains (room : Room) (tokens : List String) {position : Nat}
    (within : position ≤ tokens.length) (before : List Value) :
    ∃ forms failure? final, position ≤ final ∧ final ≤ tokens.length ∧
      forms.length ≤ final - position ∧ (failure? = none → final = tokens.length) ∧
      Drains room (.standingAt tokens position) forms failure? (.standingAt tokens final) ∧
      readAllOnto room before (tokens.drop position) =
        ⟨before.reverse ++ forms, failure?, tokens.drop final⟩ := by
  induction left : tokens.length - position using Nat.strongRecOn generalizing position before with
  | ind left ih =>
    by_cases done : position = tokens.length
    · subst done
      refine ⟨[], none, tokens.length, within, within, by simp, fun _ => rfl, .ends ?_, ?_⟩
      · simp [TokenCursor.standingAt, TokenCursor.atEnd]
      · simp
    · obtain ⟨next, upTo⟩ : ∃ next, ReadsUpTo room tokens position next := exists_readsUpTo within
      have forward := upTo.forward
      have not_done : (TokenCursor.standingAt tokens position).atEnd = false := by
        simp [TokenCursor.standingAt, TokenCursor.atEnd]
        omega
      have some_left : tokens.drop position ≠ [] := by
        rw [ne_eq, List.drop_eq_nil_iff]
        omega
      have rest : (readForm room (tokens.drop position)).rest = tokens.drop next :=
        congrArg TokenCursor.pending upTo.stands
      have nested := readNested_eq room (tokens.drop position)
      have read : (TokenCursor.standingAt tokens position).read (readNested room) =
          ((readForm room (tokens.drop position)).result.mapError Failure.ofReading,
            .standingAt tokens next) := by
        rw [← upTo.stands, TokenCursor.read]
        simp only [TokenCursor.standingAt, nested]
        rfl
      rw [rest] at nested
      cases result : (readForm room (tokens.drop position)).result with
      | error failure =>
        rw [result] at nested read
        refine ⟨[], some failure.ofReading, next, forward, upTo.fits, by simp, nofun,
          .fails not_done read, ?_⟩
        rw [readAllOnto_of_error some_left nested, List.append_nil]
      | ok value =>
        rw [result] at nested read
        have moved := (upTo.form value result).1
        obtain ⟨forms, failure?, final, later, fits, few, all, drains, further⟩ :=
          ih _ (by omega) upTo.fits (value :: before) rfl
        refine ⟨value :: forms, failure?, final, by omega, fits, ?_, all,
          .form not_done read drains, ?_⟩
        · rw [List.length_cons]
          omega
        · rw [readAllOnto_of_ok nested, further, List.reverse_cons, List.append_assoc,
            List.singleton_append]

/-! ## Reading is local -/

/-- **Reading a form is local.**  From every position of some tokens a form is read up to a
position that is not before it and not past the end, and the tokens in between settle how it is
read.  Reading form after form ends as well, at such a position, behind at most as many forms as
tokens were taken, and at the end of the tokens if no form failed. -/
theorem reading_is_local (room : Room) (tokens : List String) (position : Nat)
    (within : position ≤ tokens.length) :
    let all := (TokenCursor.standingAt tokens position).readAll room
    (∃ next, ReadsUpTo room tokens position next) ∧
    ∃ final, position ≤ final ∧ final ≤ tokens.length ∧ all.2 = .standingAt tokens final ∧
      Drains room (.standingAt tokens position) all.1.forms all.1.failure? all.2 ∧
      all.1.forms.length ≤ final - position ∧
      (all.1.failure? = none → final = tokens.length) := by
  intro all
  refine ⟨exists_readsUpTo within, ?_⟩
  obtain ⟨forms, failure?, final, later, fits, few, ends, drains, read⟩ :=
    exists_drains room tokens within []
  have drained : all = (⟨forms, failure?, tokens.drop final⟩, .standingAt tokens final) :=
    TokenCursor.readAll_standingAt later fits read
  rw [drained]
  exact ⟨final, later, fits, rfl, drains, few, ends⟩

/-- A list is read alike where other tokens stand before it and behind it. -/
theorem list_read_alike_elsewhere :
    let tokens := ["x", "(", "a", ")", ")"]
    let others := ["y", "(", "a", ")", "z"]
    let room := Room.unlimited
    1 ≤ tokens.length ∧
      readFormFrom room tokens 1 = (.ok (.list [.symbol "a"]), .standingAt tokens 4) ∧
      readFormFrom room others 1 = (.ok (.list [.symbol "a"]), .standingAt others 4) := by
  intro tokens others room
  refine ⟨by decide, rfl, ?_⟩
  obtain ⟨⟨next, reads⟩, -⟩ := reading_is_local room tokens 1 (by decide)
  obtain rfl : 4 = next := congrArg TokenCursor.position reads.stands
  refine (reads.form _ rfl).2 others fun place later earlier => ?_
  have inside : place = 1 ∨ place = 2 ∨ place = 3 := by omega
  rcases inside with rfl | rfl | rfl <;> rfl

end Lisp
