import Lisp.Proofs.OtherOperations

/-!
# Relations that steps respect

Steps are put together from a few single actions.  So a relation that holds between each of
these and itself, and between what is done in two parts that it holds between, is respected
by most that a step does (`Action.IsCongruence`).  What is left is where steps use the
evaluator and the room that they are given: inner forms are evaluated, and values are shown
in messages (`PartsRelated`).

When the relation holds there, it holds between special forms (`PartsRelated.perform`); and
when it holds between native operations too, it holds between steps (`PartsRelated.step`).
-/

set_option autoImplicit false

namespace Lisp

/-- Whether a relation holds between single actions and themselves, and between what is done in
two parts when it holds between the parts. -/
structure Action.IsCongruence (related : ∀ {α : Type}, Action α → Action α → Prop) : Prop where
  bind : ∀ {α β : Type} {action action' : Action α} {next next' : α → Action β},
    related action action' → (∀ value, related (next value) (next' value)) →
      related (action >>= next) (action' >>= next')
  pure : ∀ {α : Type} (value : α), related (Pure.pure value : Action α) (Pure.pure value)
  throw : ∀ {α : Type} (error : Error), related (Action.throw error : Action α) (.throw error)
  lookup : ∀ frame name, related (Action.lookup frame name) (.lookup frame name)
  define : ∀ frame name value, related (Action.define frame name value) (.define frame name value)
  newFrame : ∀ outer?, related (Action.newFrame outer?) (.newFrame outer?)
  newClosure : ∀ parameters body frame,
    related (Action.newClosure parameters body frame) (.newClosure parameters body frame)

/-- Whether a relation also holds where steps use what they are given: between inner forms, and
between messages about values. -/
structure PartsRelated (related : ∀ {α : Type}, Action α → Action α → Prop)
    (evaluator evaluator' : Evaluator) (room room' : Room) : Prop
    extends Action.IsCongruence related where
  nested : ∀ form frame, related (evaluator.nested Room.evaluation room form frame)
    (evaluator'.nested Room.evaluation room' form frame)
  throwShowing : ∀ {α : Type} value error,
    related (Action.throwShowing room value error : Action α) (.throwShowing room' value error)
  render : ∀ value : Value, related (Action.ofExcept (value.render .readable room))
    (.ofExcept (value.render .readable room'))

namespace PartsRelated

variable {related : ∀ {α : Type}, Action α → Action α → Prop}
variable {evaluator evaluator' : Evaluator} {room room' : Room}
variable (parts : PartsRelated related evaluator evaluator' room room')
include parts

theorem allOnto (frame : FrameId) (values forms : List Value) :
    related (evaluator.allOnto room frame values forms)
      (evaluator'.allOnto room' frame values forms) := by
  induction forms generalizing values with
  | nil => exact parts.pure _
  | cons form rest ih =>
    exact parts.bind (parts.nested form frame) fun value => ih (value :: values)

theorem defineAll (frame : FrameId) (bindings : List (String × Value)) :
    related (Action.defineAll frame bindings) (Action.defineAll frame bindings) := by
  induction bindings with
  | nil => exact parts.pure ()
  | cons binding rest ih => exact parts.bind (parts.define frame _ _) fun _ => ih

/-! ## Special forms -/

theorem performDefine (frame : FrameId) (operands : List Value) :
    related (SpecialForm.performDefine evaluator room frame operands)
      (SpecialForm.performDefine evaluator' room' frame operands) := by
  unfold SpecialForm.performDefine
  split
  · next name form =>
    refine parts.bind (parts.nested form frame) fun value => ?_
    exact parts.bind (parts.define frame name value) fun _ => parts.pure _
  · exact parts.throwShowing _ _
  · exact parts.throw _

theorem bindPairs (frame : FrameId) (bindings : List Value) :
    related (SpecialForm.bindPairs evaluator room frame bindings)
      (SpecialForm.bindPairs evaluator' room' frame bindings) := by
  fun_induction SpecialForm.bindPairs evaluator room frame bindings with
  | case1 name form rest ih =>
    rw [SpecialForm.bindPairs]
    refine parts.bind (parts.nested form frame) fun value => ?_
    exact parts.bind (parts.define frame name value) fun _ => ih
  | case2 other second rest notSymbol =>
    rw [SpecialForm.bindPairs]
    · exact parts.throwShowing _ _
    · exact notSymbol
  | case3 bindings noName noPair =>
    rw [SpecialForm.bindPairs]
    · exact parts.pure ()
    · exact noName
    · exact noPair

theorem performBind (frame : FrameId) (operands : List Value) :
    related (SpecialForm.performBind evaluator room frame operands)
      (SpecialForm.performBind evaluator' room' frame operands) := by
  unfold SpecialForm.performBind
  split
  · next bindings body =>
    split
    · refine parts.bind (parts.newFrame (some frame)) fun inner => ?_
      exact parts.bind (parts.bindPairs inner bindings) fun _ => parts.pure _
    · exact parts.throw _
  · exact parts.throw _
  · exact parts.throw _

theorem performSequence (frame : FrameId) (operands : List Value) :
    related (SpecialForm.performSequence evaluator room frame operands)
      (SpecialForm.performSequence evaluator' room' frame operands) := by
  fun_induction SpecialForm.performSequence evaluator room frame operands with
  | case1 => exact parts.pure _
  | case2 last => exact parts.pure _
  | case3 form rest more ih =>
    rw [SpecialForm.performSequence]
    · exact parts.bind (parts.nested form frame) fun _ => ih
    · exact more

theorem performChoose (frame : FrameId) (operands : List Value) :
    related (SpecialForm.performChoose evaluator room frame operands)
      (SpecialForm.performChoose evaluator' room' frame operands) := by
  unfold SpecialForm.performChoose
  split
  · exact parts.bind (parts.nested _ frame) fun _ => parts.pure _
  · exact parts.bind (parts.nested _ frame) fun _ => parts.pure _
  · exact parts.throw _

theorem performFunction (frame : FrameId) (operands : List Value) :
    related (SpecialForm.performFunction room frame operands)
      (SpecialForm.performFunction room' frame operands) := by
  unfold SpecialForm.performFunction
  split
  · dsimp only
    split
    · exact parts.bind (parts.newClosure _ _ frame) fun _ => parts.pure _
    · exact parts.throwShowing _ _
  · exact parts.throw _

theorem perform (form : SpecialForm) (frame : FrameId) (operands : List Value) :
    related (form.perform evaluator room frame operands)
      (form.perform evaluator' room' frame operands) := by
  cases form with
  | define => exact parts.performDefine frame operands
  | bind => exact parts.performBind frame operands
  | sequence => exact parts.performSequence frame operands
  | choose => exact parts.performChoose frame operands
  | function => exact parts.performFunction frame operands

/-! ## Application and steps -/

theorem applyClosure (parameters : List String) (body : Value) (frame : FrameId)
    (arguments : List Value) :
    related (Lisp.applyClosure parameters body frame arguments)
      (Lisp.applyClosure parameters body frame arguments) := by
  unfold Lisp.applyClosure
  split
  · refine parts.bind (parts.newFrame (some frame)) fun inner => ?_
    exact parts.bind (parts.defineAll inner _) fun _ => parts.pure _
  · exact parts.throw _

variable {operations operations' : Operations} {files : FileTree}
variable (called : ∀ operation root arguments,
  related (operations operation files evaluator room root arguments)
    (operations' operation files evaluator' room' root arguments))
include called

theorem apply (head : Value) (arguments : List Value) :
    related (operations.apply files evaluator room head arguments)
      (operations'.apply files evaluator' room' head arguments) := by
  cases head with
  | closure identity parameters body frame =>
    exact parts.applyClosure parameters body frame arguments
  | native operation root =>
    exact parts.bind (called operation root arguments) fun _ => parts.pure _
  | _ => exact parts.bind (parts.render _) fun _ => parts.throw _

theorem applyItems (frame : FrameId) (items : List Value) :
    related (operations.applyItems files evaluator room frame items)
      (operations'.applyItems files evaluator' room' frame items) := by
  refine parts.bind (parts.allOnto frame [] items) fun values => ?_
  cases values with
  | nil => exact parts.pure _
  | cons head arguments => exact parts.apply called head arguments

/-- **A relation that holds between the parts of steps and between native operations holds
between steps.** -/
theorem step (form : Value) (frame : FrameId) :
    related (operations.step files evaluator room form frame)
      (operations'.step files evaluator' room' form frame) := by
  cases form with
  | symbol name => exact parts.bind (parts.lookup frame name) fun _ => parts.pure _
  | list items =>
    cases items with
    | nil => exact parts.pure _
    | cons head operands =>
      rw [Operations.step, Operations.step]
      cases specialForm? head with
      | some special => exact parts.perform special frame operands
      | none => exact parts.applyItems called frame (head :: operands)
  | _ => exact parts.pure _

end PartsRelated

/-! ## The operations that there are -/

section Calls

variable {related : ∀ {α : Type}, Action α → Action α → Prop}
variable {evaluator evaluator' : Evaluator} {room room' : Room} {files : FileTree}
variable (parts : PartsRelated related evaluator evaluator' room room')
variable (called : ∀ (operation : Builtin) root arguments,
  related (operation.call files evaluator room root arguments)
    (operation.call files evaluator' room' root arguments))
include parts called

theorem PartsRelated.apply_call (head : Value) (arguments : List Value) :
    related (Lisp.apply files evaluator room head arguments)
      (Lisp.apply files evaluator' room' head arguments) := by
  rw [← Operations.apply_call]
  exact parts.apply called head arguments

theorem PartsRelated.step_call (form : Value) (frame : FrameId) :
    related (Lisp.step files evaluator room form frame)
      (Lisp.step files evaluator' room' form frame) := by
  rw [← Operations.step_call]
  exact parts.step called form frame

end Calls

end Lisp
