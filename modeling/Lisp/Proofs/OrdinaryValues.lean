import Lisp.Proofs.ReaderGrammar
import Lisp.Proofs.WrappedText

/-!
# Ordinary values

The values of programs that are read from text are ordinary: every number is a double,
every name is one that the reader can produce, and nothing belongs to the host
(`Value.IsOrdinary`).  Closures and native operations belong to frames that have been made,
so it takes part in being ordinary how much has been made already (`Extent`); more never
matters (`Value.IsOrdinary.mono`), and what has no part in any frame is ordinary from the
beginning.

Computations on ordinary values give ordinary values, and fail only in ways in which
programs can fail: never because something is no value of the language, or no symbol, and
never because an integer is too large (`Failure.IsOrdinary`).  What is read is ordinary
(`gives_ordinary_readProgram`).
-/

set_option autoImplicit false

namespace Lisp

/-! ## What has been made -/

/-- How many frames and how many closures have been made. -/
structure Extent where
  frames : Nat
  closures : Nat

namespace Extent

instance : Preorder Extent :=
  Preorder.lift fun extent => (extent.frames, extent.closures)

theorem le_iff {small large : Extent} :
    small ≤ large ↔ small.frames ≤ large.frames ∧ small.closures ≤ large.closures :=
  Iff.rfl

/-- Nothing has been made. -/
def nothing : Extent :=
  ⟨0, 0⟩

theorem nothing_le (extent : Extent) : nothing ≤ extent :=
  ⟨Nat.zero_le _, Nat.zero_le _⟩

end Extent

/-- What has been made in a world. -/
def World.extent (world : World) : Extent :=
  ⟨world.heap.size, world.closures⟩

/-! ## Ordinary values -/

/-- The values that occur in runs of programs read from text, once so much has been made. -/
inductive Value.IsOrdinary (extent : Extent) : Value → Prop where
  | nil : IsOrdinary extent .nil
  | boolean (truth : Bool) : IsOrdinary extent (.boolean truth)
  | double (x : Double) : IsOrdinary extent (.number (.double x))
  | string (text : String) : IsOrdinary extent (.string text)
  | symbol {name : String} : IsReadableName name → IsOrdinary extent (.symbol name)
  | list {items : List Value} : (∀ item ∈ items, IsOrdinary extent item) →
      IsOrdinary extent (.list items)
  | closure {identity : Nat} {parameters : List String} {body : Value} {frame : FrameId} :
      identity < extent.closures → (∀ parameter ∈ parameters, IsReadableName parameter) →
        IsOrdinary extent body → frame < extent.frames →
          IsOrdinary extent (.closure identity parameters body frame)
  | native {operation : Builtin} {root : FrameId} : root < extent.frames →
      IsOrdinary extent (.native operation root)

/-- Whether every name that is bound can be read, and every value that a name is bound to
is ordinary. -/
def World.IsOrdinary (world : World) : Prop :=
  ∀ frame, ∀ binding ∈ world.heap.bindings frame,
    IsReadableName binding.1 ∧ binding.2.IsOrdinary world.extent

namespace Value.IsOrdinary

variable {extent : Extent}

/-- What is ordinary stays so when more is made. -/
theorem mono {later : Extent} {value : Value} (ordinary : value.IsOrdinary extent)
    (more : extent ≤ later) : value.IsOrdinary later := by
  induction ordinary with
  | nil => exact .nil
  | boolean truth => exact .boolean truth
  | double x => exact .double x
  | string text => exact .string text
  | symbol readable => exact .symbol readable
  | list _ ih => exact .list ih
  | closure known readable _ there ih =>
    exact .closure (Nat.lt_of_lt_of_le known more.2) readable ih (Nat.lt_of_lt_of_le there more.1)
  | native there => exact .native (Nat.lt_of_lt_of_le there more.1)

theorem of_nothing {value : Value} (ordinary : value.IsOrdinary .nothing) :
    value.IsOrdinary extent :=
  ordinary.mono (Extent.nothing_le extent)

theorem items {items : List Value} (ordinary : (Value.list items).IsOrdinary extent) :
    ∀ item ∈ items, item.IsOrdinary extent := by
  cases ordinary with
  | list each => exact each

theorem readable {name : String} (ordinary : (Value.symbol name).IsOrdinary extent) :
    IsReadableName name := by
  cases ordinary with
  | symbol readable => exact readable

end Value.IsOrdinary

/-! ## Ordinary failures -/

/-- The failures that runs of programs read from text can meet: no error about something
that is no value of the language or no symbol, and of the faults only a full stack and a
file name with a NUL character in it. -/
def Failure.IsOrdinary : Failure → Prop
  | .error (.notValue _) | .error (.notRenderable _) | .error (.notName _) => False
  | .error _ => True
  | .fault met => met = .stackExhausted ∨ met = .nulInFileName

/-- Whether a computation gives a value of some kind, or fails in an ordinary way. -/
abbrev GivesOrdinary {α : Type} (result : α → Prop) (computation : Except Failure α) : Prop :=
  Gives Failure.IsOrdinary result computation

namespace Value

/-- Only the room to show a value in can run out. -/
theorem shown_fails (room : Room) (value : Value) :
    Gives (· = .stackExhausted) Anything (value.shown room) := by
  induction value using Value.induction generalizing room with
  | leaf value isLeaf =>
    rw [shown.eq_def]
    split
    · exact rfl
    · cases value with
      | list items => exact absurd rfl (isLeaf items)
      | boolean truth => cases truth <;> trivial
      | _ => trivial
  | list items ih =>
    have texts : ∀ inner, Gives (· = .stackExhausted) Anything (shownItems inner items) := by
      intro inner
      induction items with
      | nil =>
        rw [shownItems]
        trivial
      | cons item rest further =>
        obtain ⟨first, others⟩ := List.forall_mem_cons.1 ih
        rw [shownItems]
        exact (first inner).bind fun _ _ => (further others).bind fun _ _ => trivial
    rw [shown.eq_def]
    split
    · exact rfl
    · exact (texts _).bind fun _ _ => trivial

namespace IsOrdinary

variable {extent : Extent}

/-- An ordinary value has a kind. -/
theorem exists_kind {value : Value} (ordinary : value.IsOrdinary extent) :
    ∃ kind, value.kind = .ok kind := by
  cases ordinary <;> exact ⟨_, rfl⟩

/-- An error that names the kind of an ordinary value is ordinary when the error is. -/
theorem gives_kind {α : Type} {result : α → Prop} {value : Value}
    (ordinary : value.IsOrdinary extent) {error : Kind → Error}
    (allowed : ∀ kind, (Failure.error (error kind)).IsOrdinary) :
    GivesOrdinary result (do throw (.error (error (← value.kind)))) := by
  obtain ⟨kind, isKind⟩ := ordinary.exists_kind
  rw [isKind]
  exact allowed kind

theorem gives_renderItems {style : Style} {room : Room} {items : List Value}
    (each : ∀ item ∈ items, GivesOrdinary Anything (item.render style room)) :
    GivesOrdinary Anything (renderItems style room items) := by
  induction items with
  | nil =>
    rw [renderItems]
    trivial
  | cons item rest ih =>
    obtain ⟨first, others⟩ := List.forall_mem_cons.1 each
    rw [renderItems]
    exact first.bind fun _ _ => (ih others).bind fun _ _ => trivial

theorem gives_render (style : Style) (room : Room) {value : Value}
    (ordinary : value.IsOrdinary extent) : GivesOrdinary Anything (value.render style room) := by
  induction ordinary generalizing room with
  | boolean truth =>
    rw [render.eq_def]
    split
    · exact .inl rfl
    · cases truth <;> trivial
  | list _ ih =>
    rw [render.eq_def]
    split
    · exact .inl rfl
    · exact (gives_renderItems fun item member => ih item member _).bind fun _ _ => trivial
  | _ =>
    rw [render.eq_def]
    split
    · exact .inl rfl
    · trivial

theorem gives_areEqual {room : Room} {items others : List Value}
    (each : ∀ item ∈ items, ∀ other : Value, other.IsOrdinary extent →
      GivesOrdinary Anything (item.isEqual room other))
    (ordinary : ∀ other ∈ others, other.IsOrdinary extent) :
    GivesOrdinary Anything (areEqual room items others) := by
  induction items generalizing others with
  | nil =>
    rw [areEqual.eq_def]
    trivial
  | cons item rest ih =>
    cases others with
    | nil =>
      rw [areEqual.eq_def]
      trivial
    | cons other others =>
      obtain ⟨first, further⟩ := List.forall_mem_cons.1 each
      obtain ⟨one, more⟩ := List.forall_mem_cons.1 ordinary
      rw [areEqual]
      refine (first other one).bind fun same _ => ?_
      split
      · exact ih further more
      · trivial

theorem gives_isEqual (room : Room) {left right : Value} (ordinary : left.IsOrdinary extent)
    (ordinary' : right.IsOrdinary extent) : GivesOrdinary Anything (left.isEqual room right) := by
  induction ordinary generalizing room right with
  | list _ ih =>
    rw [isEqual.eq_def]
    split
    · exact .inl rfl
    · obtain ⟨kind, isKind⟩ := ordinary'.exists_kind
      rw [isKind]
      dsimp only [bind, Except.bind, Value.kind]
      split
      · trivial
      · cases ordinary' with
        | list each =>
          dsimp only
          split
          · trivial
          · exact gives_areEqual (fun item member other => ih item member _) each
        | _ => trivial
  | _ =>
    rw [isEqual.eq_def]
    split
    · exact .inl rfl
    · obtain ⟨kind, isKind⟩ := ordinary'.exists_kind
      rw [isKind]
      dsimp only [bind, Except.bind, Value.kind]
      split
      · trivial
      · first | trivial | (split <;> trivial)

end IsOrdinary

end Value

/-! ## Reading -/

/-- A token stands for an ordinary value if for any. -/
theorem isOrdinary_of_ofAtom {token : String} {value : Value} (alone : IsToken token.toList)
    (notOpen : token ≠ "(") (notClose : token ≠ ")") (atom : Value.ofAtom token = .ok value) :
    value.IsOrdinary .nothing := by
  rcases Value.ofAtom_cases atom with ⟨x, rfl⟩ | ⟨truth, rfl⟩ | rfl | ⟨text, rfl⟩ | rfl
  · exact .double x
  · exact .boolean truth
  · exact .nil
  · exact .string text
  · exact .symbol (isReadableName_of_ofAtom alone notOpen notClose atom)

/-- Tokens spell ordinary forms. -/
theorem Spells.isOrdinary {tokens : List String} {forms : List Value}
    (spells : Spells tokens forms) (alone : ∀ token ∈ tokens, IsToken token.toList) :
    ∀ form ∈ forms, form.IsOrdinary .nothing := by
  induction spells with
  | nothing => simp
  | atom notOpen notClose atom _ ih =>
    obtain ⟨first, others⟩ := List.forall_mem_cons.1 alone
    exact List.forall_mem_cons.2 ⟨isOrdinary_of_ofAtom first notOpen notClose atom, ih others⟩
  | list _ _ ihInside ih =>
    refine List.forall_mem_cons.2 ⟨.list (ihInside fun token member => ?_), ih fun token member => ?_⟩
    · exact alone token (by simp [member])
    · exact alone token (by simp [member])

/-- The errors of the reader are ordinary. -/
theorem isOrdinary_of_isA_malformed {error : Error} (malformed : error.category.isA .malformed = true) :
    (Failure.error error).IsOrdinary := by
  cases error with
  | notValue | notRenderable | notName => cases malformed
  | _ => trivial

/-- What a reader that a program calls fails with is an error, and ordinary. -/
theorem readNested_fails {room : Room} {tokens rest : List String} {failure : Failure}
    (fails : readNested room tokens = ⟨.error failure, rest⟩) :
    ∃ error, failure = .error error ∧ (Failure.error error).IsOrdinary := by
  obtain ⟨inner, form, rfl⟩ := readInto_of_readNested_error fails
  rcases readInto_fails room [] tokens inner (by rw [form]) with ⟨rfl, _⟩ | ⟨error, rfl, malformed⟩
  · exact ⟨_, rfl, trivial⟩
  · exact ⟨error, rfl, isOrdinary_of_isA_malformed malformed⟩

theorem readAllOnto_fails {room : Room} {forms : List Value} {tokens : List String}
    {failure : Failure} (fails : (readAllOnto room forms tokens).failure? = some failure) :
    ∃ error, failure = .error error ∧ (Failure.error error).IsOrdinary := by
  fun_induction readAllOnto room forms tokens with
  | case1 => cases fails
  | case2 forms tokens someTokens value rest read ih => exact ih fails
  | case3 forms tokens someTokens failure rest read =>
    cases fails
    exact readNested_fails read

theorem readProgram_fails {room : Room} {source : String} {failure : Failure}
    (fails : readProgram room source = .error failure) :
    ∃ error, failure = .error error ∧ (Failure.error error).IsOrdinary :=
  readAllOnto_fails (failure?_of_readProgram fails)

/-- **The forms of a source text are ordinary**, and hold nothing that has been made. -/
theorem gives_ordinary_readProgram (room : Room) (source : String) :
    GivesOrdinary (fun forms => ∀ form ∈ forms, form.IsOrdinary .nothing)
      (readProgram room source) := by
  cases read : readProgram room source with
  | ok forms =>
    have atMost : room.AtMost .unlimited := by cases room <;> trivial
    have reads := readProgram_of_atMost atMost read
    unfold readProgram at reads
    dsimp only at reads
    split at reads
    · next complete =>
      cases reads
      exact (spells_iff.1 ⟨rfl, complete⟩).isOrdinary fun token => isToken_of_mem_tokenize
    · cases reads
  | error failure =>
    obtain ⟨error, rfl, isOrdinary⟩ := readProgram_fails read
    exact isOrdinary

/-- The first form of a text is ordinary, and holds nothing that has been made. -/
theorem gives_ordinary_readText (room : Room) (source : String) :
    GivesOrdinary (Value.IsOrdinary .nothing) (readText room source) := by
  cases read : readText room source with
  | ok value =>
    by_cases nonempty : tokenize source = []
    · rw [readText, nonempty] at read
      cases read
    · rw [readText_eq room nonempty] at read
      cases form : (readInto room [] (tokenize source)).result with
      | error failure =>
        rw [form] at read
        cases read
      | ok value' =>
        rw [form] at read
        cases read
        refine @readInto_inherits (Value.IsOrdinary .nothing) (fun _ each => .list each) room [] _
          (by simp) ?_ _ form
        intro token member notOpen notClose atom
        exact isOrdinary_of_ofAtom (isToken_of_mem_tokenize member) notOpen notClose
  | error failure =>
    obtain ⟨error, rfl, malformed | ⟨rfl, _⟩⟩ := readText_fails read
    · exact isOrdinary_of_isA_malformed malformed
    · trivial

end Lisp
