import Mathlib.Data.List.Induction
import Lisp.Proofs.AtomGrammar
import Lisp.Proofs.Reading

/-!
# Tokens that spell forms

Forms are spelled by tokens: an atom by a token that stands for it, a list by its items
between parentheses (`Spells`).  Tokens that spell forms are read as these forms, at top
level and as the items of a list (`Spells.readAllOnto`, `Spells.readInto`).

Any tokens are in order up to some point: what stands before it spells forms and then
leaves lists open (`Reached`), and behind it the tokens end, or the next one can neither
close a list nor be an atom (`exists_reached`).  So what reading gives is what was
spelled up to there, and an error if something is left (`Spells.readAll_eq`, `Reached.readAll_of_open`,
`Reached.readAll_of_blocks`).
-/

set_option autoImplicit false

namespace Lisp

/-! ## Spelling -/

/-- Tokens that spell forms, one after the other: a list by its items between
parentheses, and any other form by a token that stands for it. -/
inductive Spells : List String → List Value → Prop where
  | nothing : Spells [] []
  | atom {token : String} {value : Value} {tokens : List String} {forms : List Value} :
      token ≠ "(" → token ≠ ")" → Value.ofAtom token = .ok value → Spells tokens forms →
        Spells (token :: tokens) (value :: forms)
  | list {inside tokens : List String} {items forms : List Value} :
      Spells inside items → Spells tokens forms →
        Spells ("(" :: (inside ++ ")" :: tokens)) (.list items :: forms)

namespace Spells

variable {tokens further : List String} {forms others : List Value}

theorem append (first : Spells tokens forms) (second : Spells further others) :
    Spells (tokens ++ further) (forms ++ others) := by
  induction first with
  | nothing => exact second
  | atom notOpen notClose atom _ ih => exact .atom notOpen notClose atom ih
  | list inside _ _ ih =>
    rw [List.cons_append, List.append_assoc, List.cons_append]
    exact .list inside ih

/-- Spelled tokens are read as the next items of the innermost open list. -/
theorem readInto (spells : Spells tokens forms) (items : List Value)
    (openLists : List (List Value)) (rest : List String) :
    Lisp.readInto .unlimited (items :: openLists) (tokens ++ rest) =
      Lisp.readInto .unlimited ((forms.reverse ++ items) :: openLists) rest := by
  induction spells generalizing items openLists rest with
  | nothing => rfl
  | atom notOpen notClose atom _ ih =>
    rw [List.cons_append, readInto_atom _ _ notOpen notClose atom, readOn, ih]
    simp
  | list _ _ ihInside ih =>
    simp only [List.cons_append, List.append_assoc]
    rw [readInto_open _ _ rfl, ihInside, readInto_close, readOn, Room.leave, ih]
    simp

/-- The tokens of a list are read as the list. -/
theorem readNested_list (spells : Spells tokens forms) (rest : List String) :
    readNested .unlimited ("(" :: (tokens ++ ")" :: rest)) = ⟨.ok (.list forms), rest⟩ := by
  have read : Lisp.readInto .unlimited [] ("(" :: (tokens ++ ")" :: rest)) =
      ⟨.ok (.list forms), rest⟩ := by
    rw [readInto_open _ _ rfl, spells.readInto, readInto_close, readOn]
    simp
  rw [readNested, readForm, read]

/-- **Spelled tokens are read as the forms that they spell.** -/
theorem readAllOnto (spells : Spells tokens forms) (before : List Value) (rest : List String) :
    Lisp.readAllOnto .unlimited before (tokens ++ rest) =
      Lisp.readAllOnto .unlimited (forms.reverse ++ before) rest := by
  induction spells generalizing before with
  | nothing => rfl
  | @atom token value tokens forms notOpen notClose atom _ ih =>
    have read : readNested .unlimited (token :: (tokens ++ rest)) = ⟨.ok value, tokens ++ rest⟩ := by
      rw [readNested, readForm, readInto_atom [] _ notOpen notClose atom, readOn]
    rw [List.cons_append, readAllOnto_of_ok read, ih]
    simp
  | list inside _ _ ih =>
    simp only [List.cons_append, List.append_assoc]
    rw [readAllOnto_of_ok (inside.readNested_list _), ih]
    simp

end Spells

theorem Spells.readAll_eq {tokens : List String} {forms : List Value} (spells : Spells tokens forms) :
    readAll .unlimited tokens = ⟨forms, none, []⟩ := by
  have read := spells.readAllOnto [] []
  rw [List.append_nil] at read
  simp [readAll, read]

/-! ## Lists left open -/

/-- Tokens that leave lists open, which are held innermost first with their items in
reverse: each list is opened behind items of the one around it. -/
inductive Opens : List String → List (List Value) → Prop where
  | none : Opens [] []
  | list {outside inside : List String} {openLists : List (List Value)} {items : List Value} :
      Opens outside openLists → Spells inside items →
        Opens (outside ++ "(" :: inside) (items.reverse :: openLists)

/-- Reading goes on behind tokens that leave lists open with these lists. -/
theorem Opens.readInto {tokens : List String} {openLists : List (List Value)}
    (opens : Opens tokens openLists) (rest : List String) :
    Lisp.readInto .unlimited [] (tokens ++ rest) = Lisp.readInto .unlimited openLists rest := by
  induction opens generalizing rest with
  | none => rfl
  | list _ inside ih =>
    rw [List.append_assoc, List.cons_append, ih, readInto_open _ _ rfl, inside.readInto,
      List.append_nil]

/-- Tokens that spell forms at top level and then leave lists open. -/
structure Reached (tokens : List String) (forms : List Value) (openLists : List (List Value)) :
    Prop where
  exists_eq : ∃ complete pending, tokens = complete ++ pending ∧ Spells complete forms ∧
    Opens pending openLists

namespace Reached

variable {tokens : List String} {forms items : List Value} {openLists : List (List Value)}

theorem nothing : Reached [] [] [] :=
  ⟨[], [], rfl, .nothing, .none⟩

/-- An opening parenthesis opens a list. -/
theorem openList (reached : Reached tokens forms openLists) :
    Reached (tokens ++ ["("]) forms ([] :: openLists) := by
  obtain ⟨complete, pending, rfl, spells, opens⟩ := reached
  exact ⟨complete, pending ++ ["("], by simp, spells, .list opens .nothing⟩

/-- A value spelled at top level is the next form. -/
theorem form (reached : Reached tokens forms []) {spelling : List String} {value : Value}
    (spells : Spells spelling [value]) : Reached (tokens ++ spelling) (forms ++ [value]) [] := by
  obtain ⟨complete, pending, rfl, before, opens⟩ := reached
  cases opens
  exact ⟨complete ++ spelling, [], by simp, before.append spells, .none⟩

/-- A value spelled inside a list is the next item. -/
theorem item (reached : Reached tokens forms (items :: openLists)) {spelling : List String}
    {value : Value} (spells : Spells spelling [value]) :
    Reached (tokens ++ spelling) forms ((value :: items) :: openLists) := by
  obtain ⟨complete, pending, rfl, before, opens⟩ := reached
  cases opens with
  | @list outside inside _ items opens within =>
    refine ⟨complete, outside ++ "(" :: (inside ++ spelling), by simp, before, ?_⟩
    have longer := Opens.list opens (within.append spells)
    rwa [List.reverse_append, List.reverse_singleton, List.singleton_append] at longer

/-- A closing parenthesis completes the innermost list. -/
theorem closeList (reached : Reached tokens forms (items :: openLists)) :
    ∃ before spelling, tokens ++ [")"] = before ++ spelling ∧ Reached before forms openLists ∧
      Spells spelling [.list items.reverse] := by
  obtain ⟨complete, pending, rfl, before, opens⟩ := reached
  cases opens with
  | @list outside inside _ items opens within =>
    refine ⟨complete ++ outside, "(" :: (inside ++ [")"]), by simp,
      ⟨complete, outside, rfl, before, opens⟩, ?_⟩
    rw [List.reverse_reverse]
    exact .list within .nothing

/-- A complete value leaves the lists around it open. -/
theorem value (reached : Reached tokens forms openLists) {spelling : List String} {value : Value}
    (spells : Spells spelling [value]) :
    ∃ forms' openLists', Reached (tokens ++ spelling) forms' openLists' := by
  cases openLists with
  | nil => exact ⟨_, _, reached.form spells⟩
  | cons items further => exact ⟨_, _, reached.item spells⟩

end Reached

/-! ## Where reading stops -/

/-- Tokens that stop reading behind tokens that leave lists open: a parenthesis that closes
nothing, and a token that is no atom. -/
inductive Blocks : List (List Value) → String → Error → Prop where
  | close : Blocks [] ")" .unexpectedClose
  | atom (openLists : List (List Value)) {token : String} {error : Error} :
      token ≠ "(" → token ≠ ")" → Value.ofAtom token = .error error →
        Blocks openLists token error

/-- **Tokens are in order up to their end, or up to a token that stops reading.** -/
theorem exists_reached (tokens : List String) :
    ∃ before forms openLists, Reached before forms openLists ∧
      (tokens = before ∨ ∃ token rest error, tokens = before ++ token :: rest ∧
        Blocks openLists token error) := by
  induction tokens using List.reverseRecOn with
  | nil => exact ⟨[], [], [], .nothing, .inl rfl⟩
  | append_singleton tokens token ih =>
    obtain ⟨before, forms, openLists, reached, rfl | ⟨token', rest, error, rfl, blocks⟩⟩ := ih
    · by_cases opens : token = "("
      · subst opens
        exact ⟨_, _, _, reached.openList, .inl rfl⟩
      by_cases closes : token = ")"
      · subst closes
        cases openLists with
        | nil => exact ⟨_, _, _, reached, .inr ⟨_, [], _, rfl, .close⟩⟩
        | cons items further =>
          obtain ⟨shorter, spelling, same, reached', spells⟩ := reached.closeList
          obtain ⟨forms', openLists', longer⟩ := reached'.value spells
          exact ⟨_, _, _, longer, .inl same⟩
      cases atom : Value.ofAtom token with
      | error error =>
        exact ⟨_, _, _, reached, .inr ⟨_, [], _, rfl, .atom openLists opens closes atom⟩⟩
      | ok value =>
        obtain ⟨forms', openLists', longer⟩ := reached.value (.atom opens closes atom .nothing)
        exact ⟨_, _, _, longer, .inl rfl⟩
    · refine ⟨before, forms, openLists, reached, .inr ⟨token', rest ++ [token], error, ?_, blocks⟩⟩
      rw [List.append_assoc, List.cons_append]

/-! ## What reading gives -/

namespace Reached

variable {tokens : List String} {forms : List Value} {openLists : List (List Value)}

/-- Tokens in order that leave no list open spell forms. -/
theorem spells (reached : Reached tokens forms []) : Spells tokens forms := by
  obtain ⟨complete, pending, rfl, spells, opens⟩ := reached
  cases opens
  rwa [List.append_nil]

/-- When reading goes wrong behind tokens in order, the forms that they spell are what was
read. -/
theorem readAll_of_fails (reached : Reached tokens forms openLists) {rest left : List String}
    {failure : Failure} (some_more : openLists ≠ [] ∨ rest ≠ [])
    (fails : Lisp.readInto .unlimited openLists rest = ⟨.error failure, left⟩) :
    readAll .unlimited (tokens ++ rest) = ⟨forms, some failure.ofReading, left⟩ := by
  obtain ⟨complete, pending, rfl, spells, opens⟩ := reached
  have nonempty : pending ++ rest ≠ [] := by
    cases opens with
    | none => simpa using some_more
    | list _ _ => simp
  have read : readNested .unlimited (pending ++ rest) = ⟨.error failure.ofReading, left⟩ := by
    rw [readNested, readForm, opens.readInto, fails]
  rw [readAll, List.append_assoc, spells.readAllOnto, readAllOnto_of_error nonempty read]
  simp

/-- Tokens that end inside a list. -/
theorem readAll_of_open (reached : Reached tokens forms openLists) (inside : openLists ≠ []) :
    readAll .unlimited tokens = ⟨forms, some (.error .endInList), []⟩ := by
  have fails : Lisp.readInto .unlimited openLists [] = ⟨.error (.error .endInList), []⟩ := by
    cases openLists with
    | nil => exact absurd rfl inside
    | cons items further => rw [Lisp.readInto]
  have read := reached.readAll_of_fails (.inl inside) fails
  rwa [List.append_nil] at read

/-- Tokens with one that stops reading. -/
theorem readAll_of_blocks (reached : Reached tokens forms openLists) {token : String}
    {error : Error} (blocks : Blocks openLists token error) (rest : List String) :
    ∃ left, readAll .unlimited (tokens ++ token :: rest) = ⟨forms, some (.error error), left⟩ := by
  have some_more : openLists ≠ [] ∨ token :: rest ≠ [] := .inr (by simp)
  cases blocks with
  | close =>
    have fails : Lisp.readInto .unlimited [] (")" :: rest) =
        ⟨.error (.error .unexpectedClose), ")" :: rest⟩ := by
      rw [Lisp.readInto]
      simp
    exact ⟨_, reached.readAll_of_fails some_more fails⟩
  | atom _ notOpen notClose atom =>
    have fails := @readInto_atom_of_error .unlimited openLists rest _ _ notOpen notClose atom
    exact ⟨_, reached.readAll_of_fails some_more fails⟩

end Reached

end Lisp
