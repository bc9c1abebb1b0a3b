import Lisp.Builtin.Call
import Lisp.Proofs.LessRoom

/-!
# Values in less room

Showing, rendering and comparing values nests as deep as their lists do.  With less room
each of these computations comes to what it comes to with more, or runs out of room
(`Value.shown_of_atMost`, `Value.render_of_atMost`, `Value.isEqual_of_atMost`).  So do the
native operations that are computed from their arguments alone, and reading a text, which
then says that it nests too deep (`readText_of_atMost`).
-/

set_option autoImplicit false

namespace Lisp

/-- Whether a failure is that there was too little room: met just now, or reported as an
error. -/
def Failure.IsTooDeep : Failure → Prop
  | .fault met => met = .stackExhausted
  | .error reported => reported.category = .tooDeep

theorem Failure.isTooDeep_stackExhausted : (Failure.fault .stackExhausted).IsTooDeep :=
  rfl

theorem Room.AtMost.refl (room : Room) : room.AtMost room := by
  cases room with
  | unlimited => trivial
  | frames left => exact Nat.le_refl left

/-- A level does not fit into less room, or it fits into both. -/
theorem Room.AtMost.enter?_cases {small large : Room} (atMost : small.AtMost large) (cost : Nat) :
    small.enter? cost = none ∨
      ∃ inner inner', small.enter? cost = some inner ∧ large.enter? cost = some inner' ∧
        inner.AtMost inner' := by
  cases entered : small.enter? cost with
  | none => exact .inl rfl
  | some inner =>
    obtain ⟨inner', entered', atMost'⟩ := atMost.enter? entered
    exact .inr ⟨inner, inner', rfl, entered', atMost'⟩

/-! ## Computations that agree -/

/-- Whether a computation fails in one of some ways, or comes to what another comes to. -/
def AgreesUnless {ε α : Type} (fails : ε → Prop) (small large : Except ε α) : Prop :=
  (∃ failure, small = .error failure ∧ fails failure) ∨ large = small

namespace AgreesUnless

variable {ε α β : Type} {fails : ε → Prop}

theorem refl (computation : Except ε α) : AgreesUnless fails computation computation :=
  .inr rfl

theorem of_fails {failure : ε} (allowed : fails failure) (large : Except ε α) :
    AgreesUnless fails (.error failure) large :=
  .inl ⟨failure, rfl, allowed⟩

theorem bind {small large : Except ε α} {next next' : α → Except ε β}
    (first : AgreesUnless fails small large)
    (second : ∀ value, AgreesUnless fails (next value) (next' value)) :
    AgreesUnless fails (small >>= next) (large >>= next') := by
  rcases first with ⟨failure, rfl, allowed⟩ | rfl
  · exact of_fails allowed _
  · cases large with
    | error failure => exact refl _
    | ok value => exact second value

/-- Going on in the same way from computations that agree. -/
theorem bind_left {small large : Except ε α} (first : AgreesUnless fails small large)
    (next : α → Except ε β) : AgreesUnless fails (small >>= next) (large >>= next) :=
  first.bind fun value => refl (next value)

end AgreesUnless

variable {small large : Room}

namespace Value

/-! ## Showing -/

theorem shownItems_of_each {items : List Value}
    (each : ∀ item ∈ items,
      AgreesUnless (· = .stackExhausted) (item.shown small) (item.shown large)) :
    AgreesUnless (· = .stackExhausted) (shownItems small items) (shownItems large items) := by
  induction items with
  | nil =>
    rw [shownItems, shownItems]
    exact .refl _
  | cons item rest ih =>
    obtain ⟨first, others⟩ := List.forall_mem_cons.1 each
    rw [shownItems, shownItems]
    exact first.bind fun text => (ih others).bind_left _

/-- **A value is shown as with more room, or there is too little.** -/
theorem shown_of_atMost (atMost : small.AtMost large) (value : Value) :
    AgreesUnless (· = .stackExhausted) (value.shown small) (value.shown large) := by
  induction value using Value.induction generalizing small large with
  | leaf value isLeaf =>
    rw [shown.eq_def small, shown.eq_def large]
    rcases atMost.enter?_cases Room.writing with full | ⟨inner, inner', entered, entered', _⟩
    · rw [full]
      exact .inl ⟨_, rfl, rfl⟩
    · rw [entered, entered']
      cases value with
      | list items => exact absurd rfl (isLeaf items)
      | boolean truth => cases truth <;> exact .refl _
      | _ => exact .refl _
  | list items ih =>
    rw [shown.eq_def small, shown.eq_def large]
    rcases atMost.enter?_cases Room.writing with full | ⟨inner, inner', entered, entered', inside⟩
    · rw [full]
      exact .inl ⟨_, rfl, rfl⟩
    · rw [entered, entered']
      exact (shownItems_of_each fun item member => ih item member inside).bind_left _

/-! ## Rendering -/

theorem renderItems_of_each {style : Style} {items : List Value}
    (each : ∀ item ∈ items,
      AgreesUnless Failure.IsTooDeep (item.render style small) (item.render style large)) :
    AgreesUnless Failure.IsTooDeep (renderItems style small items)
      (renderItems style large items) := by
  induction items with
  | nil =>
    rw [renderItems, renderItems]
    exact .refl _
  | cons item rest ih =>
    obtain ⟨first, others⟩ := List.forall_mem_cons.1 each
    rw [renderItems, renderItems]
    exact first.bind fun text => (ih others).bind_left _

/-- **A value is rendered as with more room, or there is too little.** -/
theorem render_of_atMost (style : Style) (atMost : small.AtMost large) (value : Value) :
    AgreesUnless Failure.IsTooDeep (value.render style small) (value.render style large) := by
  induction value using Value.induction generalizing small large with
  | leaf value isLeaf =>
    rw [render.eq_def style small, render.eq_def style large]
    rcases atMost.enter?_cases Room.writing with full | ⟨inner, inner', entered, entered', _⟩
    · rw [full]
      exact .inl ⟨_, rfl, rfl⟩
    · rw [entered, entered']
      cases value with
      | list items => exact absurd rfl (isLeaf items)
      | boolean truth => cases truth <;> exact .refl _
      | _ => exact .refl _
  | list items ih =>
    rw [render.eq_def style small, render.eq_def style large]
    rcases atMost.enter?_cases Room.writing with full | ⟨inner, inner', entered, entered', inside⟩
    · rw [full]
      exact .inl ⟨_, rfl, rfl⟩
    · rw [entered, entered']
      exact (renderItems_of_each fun item member => ih item member inside).bind_left _

theorem renderItems_of_atMost (style : Style) (atMost : small.AtMost large) (items : List Value) :
    AgreesUnless Failure.IsTooDeep (renderItems style small items)
      (renderItems style large items) :=
  renderItems_of_each fun item _ => render_of_atMost style atMost item

/-! ## Comparing -/

theorem areEqual_of_each {items : List Value}
    (each : ∀ item ∈ items, ∀ other,
      AgreesUnless Failure.IsTooDeep (item.isEqual small other) (item.isEqual large other)) :
    ∀ others, AgreesUnless Failure.IsTooDeep (areEqual small items others)
      (areEqual large items others) := by
  induction items with
  | nil =>
    intro others
    rw [areEqual.eq_def, areEqual.eq_def]
    exact .refl _
  | cons item rest ih =>
    obtain ⟨first, further⟩ := List.forall_mem_cons.1 each
    intro others
    cases others with
    | nil =>
      rw [areEqual.eq_def, areEqual.eq_def]
      exact .refl _
    | cons other others =>
      rw [areEqual, areEqual]
      refine (first other).bind fun same => ?_
      split
      · exact ih further others
      · exact .refl _

/-- **Two values are compared as with more room, or there is too little.** -/
theorem isEqual_of_atMost (atMost : small.AtMost large) (left right : Value) :
    AgreesUnless Failure.IsTooDeep (left.isEqual small right) (left.isEqual large right) := by
  induction left using Value.induction generalizing small large right with
  | leaf left isLeaf =>
    rw [isEqual.eq_def small, isEqual.eq_def large]
    rcases atMost.enter?_cases Room.comparing with full | ⟨inner, inner', entered, entered', _⟩
    · rw [full]
      exact .inl ⟨_, rfl, rfl⟩
    · rw [entered, entered']
      cases left with
      | list items => exact absurd rfl (isLeaf items)
      | _ => cases right <;> exact .refl _
  | list items ih =>
    rw [isEqual.eq_def small, isEqual.eq_def large]
    rcases atMost.enter?_cases Room.comparing with full | ⟨inner, inner', entered, entered', inside⟩
    · rw [full]
      exact .inl ⟨_, rfl, rfl⟩
    · rw [entered, entered']
      refine (AgreesUnless.refl _).bind fun kind => (AgreesUnless.refl _).bind fun kind' => ?_
      split
      · exact .refl _
      · cases right with
        | list others =>
          dsimp only
          split
          · exact .refl _
          · exact areEqual_of_each (fun item member => ih item member inside) others
        | _ => exact .refl _

end Value

/-! ## Reading -/

/-- **Tokens are read as with more room, or the reader says that they nest too deep.** -/
theorem readNested_of_less_room (atMost : small.AtMost large) (tokens : List String) :
    (readNested small tokens).result = .error (.error .readingTooDeep) ∨
      readNested large tokens = readNested small tokens := by
  unfold readNested readForm
  rcases readInto_of_atMost atMost [] tokens with exhausted | same
  · left
    split
    · next read =>
      rw [read] at exhausted
      cases exhausted
    · next read =>
      rw [read] at exhausted
      cases exhausted
      rfl
  · right
    rw [same]

theorem readText_of_atMost (atMost : small.AtMost large) (source : String) :
    AgreesUnless Failure.IsTooDeep (readText small source) (readText large source) := by
  unfold readText
  dsimp only
  split
  · exact .refl _
  · rcases readNested_of_less_room atMost (tokenize source) with tooDeep | same
    · rw [tooDeep]
      exact .inl ⟨_, rfl, rfl⟩
    · rw [same]
      exact .refl _

/-! ## Native operations -/

namespace Builtin

theorem same_of_atMost (atMost : small.AtMost large) (arguments : List Value) :
    AgreesUnless Failure.IsTooDeep (same small arguments) (same large arguments) := by
  cases arguments with
  | nil => exact .refl _
  | cons first rest =>
    have equal : AgreesUnless Failure.IsTooDeep (allEqual small first rest)
        (allEqual large first rest) := by
      induction rest with
      | nil => exact .refl _
      | cons other rest ih =>
        refine (Value.isEqual_of_atMost atMost first other).bind fun equal => ?_
        cases equal with
        | true => exact ih
        | false => exact .refl _
    exact equal.bind_left _

theorem joined_of_atMost (atMost : small.AtMost large) (arguments : List Value) :
    AgreesUnless Failure.IsTooDeep (joined small arguments) (joined large arguments) :=
  (Value.renderItems_of_atMost .display atMost arguments).bind_left _

theorem line_of_atMost (atMost : small.AtMost large) (arguments : List Value) :
    AgreesUnless Failure.IsTooDeep (line small arguments) (line large arguments) :=
  (Value.renderItems_of_atMost .readable atMost arguments).bind_left _

theorem formOfText_of_atMost (atMost : small.AtMost large) (arguments : List Value) :
    AgreesUnless Failure.IsTooDeep (formOfText small arguments) (formOfText large arguments) := by
  refine (AgreesUnless.refl _).bind fun argument => ?_
  cases argument with
  | string source => exact readText_of_atMost atMost source
  | _ => exact .refl _

end Builtin

end Lisp
