import Lisp.Builtin.Call
import Lisp.Prelude
import Lisp.Proofs.Leaves

/-!
# What computations give

The parts of a run that need no world are computations: showing, rendering and
comparing values, reading text, and most native operations.  Each fails only as its
room allows (`Room.Allows`): with unlimited room nothing fails for want of it.  What
only takes values meets no other faults than that and an integer that is too large
(`Room.Meets`).  And what native operations compute from values is plain, text that is
read apart: that gives lists as well, of plain values (`gives_readText`).
-/

set_option autoImplicit false

namespace Lisp

/-- The failures that can happen in a room: if it is unlimited it is never used up. -/
def Room.Allows (room : Room) (failure : Failure) : Prop :=
  room = .unlimited → failure ≠ .fault .stackExhausted

theorem Room.allows_error (room : Room) (error : Error) : room.Allows (.error error) := by
  intro _ same
  cases same

/-- A room that a level does not fit into is not unlimited. -/
theorem Room.allows_of_enter? {room : Room} {cost : Nat} (full : room.enter? cost = none)
    (failure : Failure) : room.Allows failure := by
  rintro rfl
  cases full

/-- A level inside an unlimited room is as unlimited. -/
theorem Room.Allows.of_inner {room inner : Room} {cost : Nat} {failure : Failure}
    (entered : room.enter? cost = some inner) (allows : inner.Allows failure) :
    room.Allows failure := by
  rintro rfl
  cases entered
  exact allows rfl

/-- The failures that computations on values meet in a room: errors, an integer that is too
large, and the end of the room, if it has one. -/
def Room.Meets (room : Room) : Failure → Prop
  | .error _ => True
  | .fault met => met = .integerTooLarge ∨ met = .stackExhausted ∧ room ≠ .unlimited

theorem Room.meets_of_enter? {room : Room} {cost : Nat} (full : room.enter? cost = none) :
    room.Meets (.fault .stackExhausted) := by
  refine .inr ⟨rfl, ?_⟩
  rintro rfl
  cases full

theorem Room.Meets.of_inner {room inner : Room} {cost : Nat} {failure : Failure}
    (entered : room.enter? cost = some inner) (meets : inner.Meets failure) :
    room.Meets failure := by
  cases failure with
  | error error => trivial
  | fault met =>
    refine meets.imp_right fun exhausted => ⟨exhausted.1, ?_⟩
    rintro rfl
    cases entered
    exact exhausted.2 rfl

theorem Room.Meets.allows {room : Room} {failure : Failure} (meets : room.Meets failure) :
    room.Allows failure := by
  rintro rfl rfl
  rcases meets with same | ⟨_, limited⟩
  · cases same
  · exact limited rfl

/-! ## Computations without a world -/

/-- Whether a computation fails only in some ways, and gives a result with a property
if it does not fail. -/
def Gives {ε α : Type} (fails : ε → Prop) (result : α → Prop) : Except ε α → Prop
  | .ok value => result value
  | .error failure => fails failure

/-- Any result. -/
abbrev Anything {α : Type} (_ : α) : Prop :=
  True

namespace Gives

variable {ε α β : Type} {fails : ε → Prop}

theorem bind {result : α → Prop} {result' : β → Prop} {first : Except ε α}
    {next : α → Except ε β} (gives : Gives fails result first)
    (goes_on : ∀ value, result value → Gives fails result' (next value)) :
    Gives fails result' (first >>= next) := by
  cases first with
  | error failure => exact gives
  | ok value => exact goes_on value gives

theorem mono {fails' : ε → Prop} {result result' : α → Prop} {computation : Except ε α}
    (gives : Gives fails result computation) (fewer : ∀ failure, fails failure → fails' failure)
    (weaker : ∀ value, result value → result' value) : Gives fails' result' computation := by
  cases computation with
  | error failure => exact fewer failure gives
  | ok value => exact weaker value gives

theorem of_inner {room inner : Room} {cost : Nat} {result : α → Prop}
    {computation : Except Failure α} (entered : room.enter? cost = some inner)
    (gives : Gives inner.Meets result computation) : Gives room.Meets result computation :=
  gives.mono (fun _ => Room.Meets.of_inner entered) fun _ => id

theorem allows {room : Room} {result : α → Prop} {computation : Except Failure α}
    (gives : Gives room.Meets result computation) : Gives room.Allows result computation :=
  gives.mono (fun _ => Room.Meets.allows) fun _ => id

end Gives

/-- The faults that can happen in a room. -/
def Room.AllowsFault (room : Room) (fault : Fault) : Prop :=
  room.Allows (.fault fault)

/-- The values that hold no other value and no frame. -/
def Value.IsPlain : Value → Prop
  | .nil | .boolean _ | .number _ | .string _ | .symbol _ => True
  | _ => False

namespace Value

theorem gives_kind (room : Room) (value : Value) : Gives room.Meets Anything value.kind := by
  cases value with
  | foreign text => trivial
  | _ => trivial

theorem gives_shownItems {room : Room} {items : List Value}
    (each : ∀ item ∈ items, Gives room.AllowsFault Anything (item.shown room)) :
    Gives room.AllowsFault Anything (shownItems room items) := by
  induction items with
  | nil =>
    rw [shownItems]
    trivial
  | cons item rest ih =>
    obtain ⟨first, others⟩ := List.forall_mem_cons.1 each
    rw [shownItems]
    refine first.bind fun text _ => ?_
    exact (ih others).bind fun texts _ => trivial

theorem gives_shown (room : Room) (value : Value) :
    Gives room.AllowsFault Anything (value.shown room) := by
  induction value using Value.induction generalizing room with
  | leaf value isLeaf =>
    rw [shown.eq_def]
    split
    · next full => exact Room.allows_of_enter? full _
    · cases value with
      | list items => exact absurd rfl (isLeaf items)
      | boolean value => cases value <;> trivial
      | _ => trivial
  | list items ih =>
    rw [shown.eq_def]
    split
    · next full => exact Room.allows_of_enter? full _
    · next inner entered =>
      have texts := gives_shownItems fun item member => ih item member inner
      refine (Gives.bind texts fun texts _ => ?_).mono (fun fault allows => ?_) fun _ => id
      · trivial
      · exact Room.Allows.of_inner entered allows

theorem gives_renderItems {style : Style} {room : Room} {items : List Value}
    (each : ∀ item ∈ items, Gives room.Meets Anything (item.render style room)) :
    Gives room.Meets Anything (renderItems style room items) := by
  induction items with
  | nil =>
    rw [renderItems]
    trivial
  | cons item rest ih =>
    obtain ⟨first, others⟩ := List.forall_mem_cons.1 each
    rw [renderItems]
    refine first.bind fun text _ => ?_
    exact (ih others).bind fun texts _ => trivial

theorem gives_render (style : Style) (room : Room) (value : Value) :
    Gives room.Meets Anything (value.render style room) := by
  induction value using Value.induction generalizing room with
  | leaf value isLeaf =>
    rw [render.eq_def]
    split
    · next full => exact Room.meets_of_enter? full
    · cases value with
      | list items => exact absurd rfl (isLeaf items)
      | boolean value => cases value <;> trivial
      | number n =>
        dsimp only
        split
        · trivial
        · exact .inl rfl
      | foreign text => trivial
      | _ => trivial
  | list items ih =>
    rw [render.eq_def]
    split
    · next full => exact Room.meets_of_enter? full
    · next inner entered =>
      have texts := gives_renderItems fun item member => ih item member inner
      exact Gives.of_inner entered (texts.bind fun texts _ => trivial)

theorem gives_areEqual {room : Room} {items : List Value}
    (each : ∀ item ∈ items, ∀ other, Gives room.Meets Anything (item.isEqual room other)) :
    ∀ others, Gives room.Meets Anything (areEqual room items others) := by
  induction items with
  | nil =>
    intro others
    rw [areEqual.eq_def]
    trivial
  | cons item rest ih =>
    obtain ⟨first, further⟩ := List.forall_mem_cons.1 each
    intro others
    cases others with
    | nil =>
      rw [areEqual.eq_def]
      trivial
    | cons other others =>
      rw [areEqual]
      refine (first other).bind fun same _ => ?_
      split
      · exact ih further others
      · trivial

theorem gives_isEqual (room : Room) (left right : Value) :
    Gives room.Meets Anything (left.isEqual room right) := by
  induction left using Value.induction generalizing room right with
  | leaf left isLeaf =>
    rw [isEqual.eq_def]
    split
    · next full => exact Room.meets_of_enter? full
    · refine (gives_kind room left).bind fun kind _ => (gives_kind room right).bind fun kind' _ => ?_
      split
      · trivial
      · split
        · exact absurd rfl (isLeaf _)
        all_goals trivial
  | list items ih =>
    rw [isEqual.eq_def]
    split
    · next full => exact Room.meets_of_enter? full
    · next inner entered =>
      refine (gives_kind room _).bind fun kind _ => (gives_kind room right).bind fun kind' _ => ?_
      split
      · trivial
      · cases right with
        | list others =>
          dsimp only
          split
          · trivial
          · have same := gives_areEqual fun item member => ih item member inner
            exact Gives.of_inner entered (same others)
        | _ => trivial

end Value

/-- A reader that a program calls never fails for want of room. -/
theorem Failure.allows_ofReading (room : Room) (failure : Failure) :
    room.Allows failure.ofReading := by
  intro _ same
  unfold Failure.ofReading at same
  split at same
  · cases same
  · next other => exact other same

section Reading

variable {property : Value → Prop}
variable (plain : ∀ value : Value, value.IsPlain → property value)
variable (list : ∀ items : List Value, (∀ item ∈ items, property item) → property (.list items))
include plain list

/-- A property that lists take from their items holds of a form that is read, if it
holds of plain values. -/
theorem gives_readNested (room : Room) (tokens : List String) :
    Gives room.Allows property (readNested room tokens).result := by
  have inherits := readInto_inherits list room [] tokens (by simp) ?_
  · unfold readNested readForm
    split
    · next value rest read => exact inherits value (by rw [read])
    · next failure rest read => exact Failure.allows_ofReading room failure
  · intro token _ _ _ value atom
    refine plain value ?_
    rcases Value.ofAtom_cases atom with ⟨_, rfl⟩ | ⟨_, rfl⟩ | rfl | ⟨_, rfl⟩ | rfl
    all_goals trivial

theorem gives_readText (room : Room) (source : String) :
    Gives room.Allows property (readText room source) := by
  unfold readText
  dsimp only
  split
  · exact room.allows_error _
  · exact gives_readNested plain list room (tokenize source)

theorem readAllOnto_inherits (room : Room) {forms : List Value} (tokens : List String)
    (before : ∀ form ∈ forms, property form) :
    (∀ form ∈ (readAllOnto room forms tokens).forms, property form) ∧
      ∀ failure, (readAllOnto room forms tokens).failure? = some failure → room.Allows failure := by
  fun_induction readAllOnto room forms tokens with
  | case1 forms tokens noTokens =>
    exact ⟨fun form member => before form (List.mem_reverse.1 member), nofun⟩
  | case2 forms tokens someTokens value rest read ih =>
    have inherits := gives_readNested plain list room tokens
    rw [read] at inherits
    exact ih (List.forall_mem_cons.2 ⟨inherits, before⟩)
  | case3 forms tokens someTokens failure rest read =>
    have inherits := gives_readNested plain list room tokens
    rw [read] at inherits
    refine ⟨fun form member => before form (List.mem_reverse.1 member), ?_⟩
    rintro _ ⟨⟩
    exact inherits

theorem gives_readProgram (room : Room) (source : String) :
    Gives room.Allows (fun forms => ∀ form ∈ forms, property form) (readProgram room source) := by
  have inherits := readAllOnto_inherits plain list room (tokenize source) (List.forall_mem_nil _)
  unfold readProgram readSource readAll
  dsimp only
  split
  · exact inherits.1
  · next failure stopped => exact inherits.2 failure stopped

end Reading

theorem Prelude.gives_paths (room : Room) (settings : Settings) (files : FileTree) :
    Gives room.AllowsFault Anything (Prelude.paths settings files) := by
  have directory : Gives room.AllowsFault Anything (Prelude.directory settings files) := by
    unfold Prelude.directory
    split
    · exact fun _ => nofun
    · split
      · trivial
      · exact fun _ => nofun
  exact directory.bind fun _ _ => trivial

/-! ## Native operations -/

namespace Builtin

/-- An argument that is no number is refused. -/
theorem numbers_of_not_isNumber (operation : Builtin) {argument : Value}
    (other : argument.isNumber = false) (rest : List Value) :
    numbers operation (argument :: rest) =
      (do throw (.error (.notNumber operation (← argument.kind)))) := by
  cases argument with
  | number n => cases other
  | _ => rfl

theorem gives_numbers (room : Room) (operation : Builtin) (arguments : List Value) :
    Gives room.Meets Anything (numbers operation arguments) := by
  fun_induction numbers operation arguments with
  | case1 => trivial
  | case2 n rest ih => exact ih.bind fun _ _ => trivial
  | case3 other rest notNumber =>
    exact (Value.gives_kind room other).bind fun _ _ => trivial

theorem gives_numeric (room : Room) (result : Option Double) :
    Gives room.Meets Value.IsPlain (numeric result) := by
  cases result with
  | none => exact .inl rfl
  | some x => trivial

theorem gives_difference (room : Room) (arguments : List Value) :
    Gives room.Meets Value.IsPlain (difference arguments) := by
  refine (gives_numbers room .subtract arguments).bind fun numbers _ => ?_
  cases numbers with
  | nil => trivial
  | cons first rest => exact gives_numeric room _

theorem gives_quotient (room : Room) (arguments : List Value) :
    Gives room.Meets Value.IsPlain (quotient arguments) := by
  refine (gives_numbers room .divide arguments).bind fun numbers _ => ?_
  cases numbers with
  | nil => trivial
  | cons first rest => exact gives_numeric room _

theorem gives_ordered (room : Room) (operation : Builtin) (relation : Number → Number → Bool)
    (arguments : List Value) :
    Gives room.Meets Value.IsPlain (ordered operation relation arguments) :=
  (gives_numbers room operation arguments).bind fun _ _ => trivial

theorem gives_same (room : Room) (arguments : List Value) :
    Gives room.Meets Value.IsPlain (same room arguments) := by
  cases arguments with
  | nil => trivial
  | cons first rest =>
    have equal : Gives room.Meets Anything (allEqual room first rest) := by
      induction rest with
      | nil => trivial
      | cons other rest ih =>
        refine (Value.gives_isEqual room first other).bind fun same _ => ?_
        cases same
        · trivial
        · exact ih
    exact equal.bind fun _ _ => trivial

theorem gives_onlyArgument (room : Room) (operation : Builtin) (arguments : List Value) :
    Gives room.Meets (fun argument => argument ∈ arguments) (onlyArgument operation arguments) := by
  unfold onlyArgument
  split
  · exact List.mem_singleton_self _
  · trivial

theorem gives_listArgument (room : Room) (operation : Builtin) (arguments : List Value) :
    Gives room.Meets Anything (listArgument operation arguments) := by
  refine (gives_onlyArgument room operation arguments).bind fun argument _ => ?_
  split
  · trivial
  · trivial
  · refine (Value.gives_kind room _).bind fun kind _ => ?_
    trivial

theorem gives_isListValue (room : Room) (arguments : List Value) :
    Gives room.Meets Value.IsPlain (isListValue arguments) := by
  refine (gives_onlyArgument room .isList arguments).bind fun argument _ => ?_
  split <;> trivial

theorem gives_joinedItems (style : Style) (room : Room) (arguments : List Value) :
    Gives room.Meets Anything (Value.renderItems style room arguments) :=
  Value.gives_renderItems fun argument _ => Value.gives_render style room argument

/-- Whether the arguments are one name with a NUL character in it. -/
def namesNul : List Value → Bool
  | [.string name] => name.contains '\x00'
  | _ => false

theorem fileText_of_namesNul (files : FileTree) {arguments : List Value}
    (nul : namesNul arguments = true) :
    fileText files arguments = .error (.fault .nulInFileName) := by
  unfold namesNul at nul
  split at nul
  · next name =>
    simp only [fileText, onlyArgument]
    dsimp only [bind, Except.bind]
    rw [if_pos nul]
    rfl
  · cases nul

/-- A file is read like other things are computed, unless its name has a NUL character. -/
theorem meets_fileText (room : Room) (files : FileTree) {arguments : List Value}
    (others : ¬ namesNul arguments = true) :
    Gives room.Meets Value.IsPlain (fileText files arguments) := by
  rcases arguments with - | ⟨argument, - | ⟨second, rest⟩⟩
  · trivial
  · have only : onlyArgument .readFile [argument] = .ok argument := rfl
    rw [fileText, only]
    dsimp only [bind, Except.bind]
    split
    · next name =>
      have allowed : ¬ name.contains '\x00' = true := others
      rw [if_neg allowed]
      split <;> trivial
    · exact (Value.gives_kind room argument).bind fun _ _ => trivial
  · trivial

theorem gives_fileText (room : Room) (files : FileTree) (arguments : List Value) :
    Gives room.Allows Value.IsPlain (fileText files arguments) := by
  by_cases nul : namesNul arguments = true
  · rw [fileText_of_namesNul files nul]
    exact fun _ => nofun
  · exact (meets_fileText room files nul).allows

/-- Whether an operation only computes a plain value from its arguments. -/
def Computes (operation : Builtin) (room : Room) : Prop :=
  ∃ compute : List Value → Except Failure Value,
    (∀ arguments, Gives room.Meets Value.IsPlain (compute arguments)) ∧
    ∀ (files : FileTree) (evaluator : Evaluator) (root : FrameId) (arguments : List Value),
      operation.call files evaluator room root arguments = .ofExcept (compute arguments)

/-- **All operations but five only compute plain values from their arguments.** -/
theorem computes {operation : Builtin} (room : Room)
    (others : operation ∉ [Builtin.list, .printLine, .readFile, .readText, .evaluate]) :
    operation.Computes room := by
  cases operation with
  | list | printLine | readFile | readText | evaluate => exact absurd (by decide) others
  | add =>
    exact ⟨sum, fun arguments => (gives_numbers room .add arguments).bind fun _ _ =>
      gives_numeric room _, fun _ _ _ _ => rfl⟩
  | multiply =>
    exact ⟨product, fun arguments => (gives_numbers room .multiply arguments).bind fun _ _ =>
      gives_numeric room _, fun _ _ _ _ => rfl⟩
  | subtract => exact ⟨difference, gives_difference room, fun _ _ _ _ => rfl⟩
  | divide => exact ⟨quotient, gives_quotient room, fun _ _ _ _ => rfl⟩
  | less | lessOrEqual | greater | greaterOrEqual =>
    exact ⟨_, gives_ordered room _ _, fun _ _ _ _ => rfl⟩
  | equal => exact ⟨same room, gives_same room, fun _ _ _ _ => rfl⟩
  | isList => exact ⟨isListValue, gives_isListValue room, fun _ _ _ _ => rfl⟩
  | isEmpty =>
    exact ⟨isEmptyList, fun arguments =>
      (gives_listArgument room .isEmpty arguments).bind fun _ _ => trivial, fun _ _ _ _ => rfl⟩
  | count =>
    exact ⟨itemCount, fun arguments =>
      (gives_listArgument room .count arguments).bind fun _ _ => trivial, fun _ _ _ _ => rfl⟩
  | concatenate =>
    exact ⟨joined room, fun arguments =>
      (gives_joinedItems .display room arguments).bind fun _ _ => trivial, fun _ _ _ _ => rfl⟩

end Builtin

end Lisp
