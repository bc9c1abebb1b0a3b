import Lisp.Proofs.FrameEffects

/-!
# Calls

What a call does follows from what its items have for values.  A form has a value in a
world when evaluating it finishes with the value and leaves the world as it is
(`HasValue`); the call of a native operation is then the operation on the values
(`evaluate_native`), and the call of a closure goes on with its body in a new frame
inside the closure's (`evaluate_call`).
-/

set_option autoImplicit false

namespace Lisp

/-! ## Looking up -/

namespace Heap

variable {heap : Heap} {frame : FrameId} {name : String}

theorem lookup?_of_find? {value : Value}
    (found : (heap.bindings frame).find? name = some value) :
    heap.lookup? frame name = some value := by
  have binds : (heap.bindings frame).binds name = true := by simp [Bindings.binds, found]
  rw [lookup?, find?, if_pos binds]
  exact found

/-- A name that a frame does not bind is looked up in the frame around it. -/
theorem lookup?_of_outer? {outer : FrameId} (unbound : (heap.bindings frame).find? name = none)
    (inside : heap.outer? frame = some outer) : heap.lookup? frame name = heap.lookup? outer name := by
  have skips : ¬ (heap.bindings frame).binds name = true := by simp [Bindings.binds, unbound]
  have further : heap.find? frame name = heap.find? outer name := by
    rw [find?.eq_def heap frame, if_neg skips]
    split
    · next alone =>
      rw [alone] at inside
      cases inside
    · next around =>
      rw [around] at inside
      cases inside
      rfl
  rw [lookup?, lookup?, further]

theorem lt_size_of_find? {value : Value}
    (found : (heap.bindings frame).find? name = some value) : frame < heap.size := by
  by_contra absent
  have empty : heap.bindings frame = [] := by
    rw [bindings, frame?, Array.getElem?_eq_none (Nat.le_of_not_lt absent)]
    rfl
  rw [empty] at found
  cases found

end Heap

/-! ## The world of a call -/

/-- The world in which the body of a closure with one parameter is evaluated: the
parameter is bound in a new frame inside the closure's own. -/
def World.calling (world : World) (frame : FrameId) (parameter : String) (argument : Value) : World :=
  { world with heap := (world.heap.push (some frame)).define world.heap.size parameter argument }

namespace World

variable (world : World) (frame : FrameId) (parameter : String) (argument : Value)

@[simp]
theorem size_calling :
    (world.calling frame parameter argument).heap.size = world.heap.size + 1 := by
  simp [calling]

/-- A call makes a frame and changes none. -/
theorem preserves_calling :
    Preserves (fun _ => False) world.heap (world.calling frame parameter argument).heap := by
  have pushed := Preserves.push (· = world.heap.size) world.heap (some frame)
  have defined := @Preserves.define (· = world.heap.size) world.heap.size rfl
    (world.heap.push (some frame)) parameter argument
  exact (pushed.trans defined).mono fun place old => Nat.ne_of_lt old

/-- A call changes no bindings of frames that are there. -/
theorem bindings_calling {place : FrameId} (present : place < world.heap.size) :
    (world.calling frame parameter argument).heap.bindings place = world.heap.bindings place := by
  rw [Heap.bindings, Heap.bindings,
    (world.preserves_calling frame parameter argument).frame?_eq place present id]

theorem bindings_calling_inner :
    (world.calling frame parameter argument).heap.bindings world.heap.size =
      [(parameter, argument)] := by
  have new : (world.heap.push (some frame)).bindings world.heap.size = [] := by
    rw [Heap.bindings, Heap.frame?_push, if_pos rfl]
    rfl
  rw [calling, Heap.bindings_define _ _ _ _ _ (by simp), if_pos rfl, new]
  rfl

theorem lookup?_calling_parameter :
    (world.calling frame parameter argument).heap.lookup? world.heap.size parameter =
      some argument := by
  refine Heap.lookup?_of_find? ?_
  rw [bindings_calling_inner, Bindings.find?, if_pos rfl]

/-- Inside a call the names that the closure's frame binds are seen as before. -/
theorem lookup?_calling {frame : FrameId} {name : String} {value : Value}
    (found : (world.heap.bindings frame).find? name = some value) (other : parameter ≠ name) :
    (world.calling frame parameter argument).heap.lookup? world.heap.size name = some value := by
  have present := Heap.lt_size_of_find? found
  have outer : (world.calling frame parameter argument).heap.outer? world.heap.size = some frame := by
    rw [calling, Heap.outer?_define, Heap.outer?, Heap.frame?_push, if_pos rfl]
    simp [present]
  rw [Heap.lookup?_of_outer? _ outer]
  · refine Heap.lookup?_of_find? ?_
    rw [world.bindings_calling frame parameter argument present]
    exact found
  · rw [bindings_calling_inner, Bindings.find?, if_neg other]
    rfl

end World

/-! ## Values of forms -/

/-- Whether evaluating a form gives a value and leaves the world as it is. -/
def HasValue (files : FileTree) (fuel : Nat) (room : Room) (frame : FrameId) (world : World)
    (form value : Value) : Prop :=
  evaluate files fuel room form frame world = .finished value world

section Evaluation

variable {files : FileTree} {fuel : Nat} {room : Room} {frame : FrameId} {world : World}

theorem hasValue_symbol {name : String} {value : Value}
    (found : world.heap.lookup? frame name = some value) :
    HasValue files (fuel + 1) room frame world (.symbol name) value := by
  have stepped : step files (evaluate files fuel) room (.symbol name) frame world =
      .finished (.done value) world := by
    simp only [step, Action.bind_apply, Action.lookup, found]
    rfl
  rw [HasValue, evaluate, stepped]

theorem hasValue_string (text : String) :
    HasValue files (fuel + 1) room frame world (.string text) (.string text) := by
  rw [HasValue, evaluate]
  rfl

/-- An evaluation runs out of room inside its steps only, and says so with an error. -/
theorem evaluate_ne_stackExhausted (files : FileTree) (fuel : Nat) (room : Room) (form : Value)
    (frame : FrameId) (world after : World) :
    evaluate files fuel room form frame world ≠ .failed (.fault .stackExhausted) after := by
  intro exhausted
  induction fuel generalizing room form frame world with
  | zero => cases exhausted
  | succ fuel ih =>
    rw [evaluate] at exhausted
    split at exhausted
    · cases exhausted
    · exact ih _ _ _ _ exhausted
    · cases exhausted
    · next failure between others _ =>
      cases exhausted
      exact others rfl
    · cases exhausted

/-- An evaluation fails as its step does, unless that runs out of room. -/
theorem evaluate_of_step_fails {form : Value} {failure : Failure} {after : World}
    (stepped : step files (evaluate files fuel) room form frame world = .failed failure after)
    (others : failure ≠ .fault .stackExhausted) :
    evaluate files (fuel + 1) room form frame world = .failed failure after := by
  rw [evaluate, stepped]
  cases failure with
  | error error => rfl
  | fault fault =>
    cases fault with
    | stackExhausted => exact absurd rfl others
    | _ => rfl

variable {inner : Room} {head : Value} {operands : List Value}

theorem nested_of_enter? {cost : Nat} (entered : room.enter? cost = some inner) (form : Value)
    (frame : FrameId) (world : World) :
    Evaluator.nested (evaluate files fuel) cost room form frame world =
      evaluate files fuel inner form frame world := by
  simp only [Evaluator.nested, entered]

/-- A definition binds the value of its form in the world that the form leaves behind. -/
theorem evaluate_define (entered : room.enter? Room.evaluation = some inner) {name : String}
    {form value : Value} {after : World}
    (evaluated : evaluate files fuel inner form frame world = .finished value after) :
    evaluate files (fuel + 1) room (.list [.symbol "def!", .symbol name, form]) frame world =
      .finished value { after with heap := after.heap.define frame name value } := by
  have stepped : step files (evaluate files fuel) room (.list [.symbol "def!", .symbol name, form])
      frame world =
        .finished (.done value) { after with heap := after.heap.define frame name value } := by
    change SpecialForm.performDefine (evaluate files fuel) room frame [.symbol name, form] world = _
    simp only [SpecialForm.performDefine, Action.bind_apply]
    rw [nested_of_enter? entered, evaluated]
    rfl
  rw [evaluate, stepped]

theorem allOnto_of_hasValue (entered : room.enter? Room.evaluation = some inner)
    {forms values : List Value}
    (each : List.Forall₂ (HasValue files fuel inner frame world) forms values)
    (before : List Value) :
    Evaluator.allOnto (evaluate files fuel) room frame before forms world =
      .finished (before.reverse ++ values) world := by
  induction each generalizing before with
  | nil =>
    rw [List.append_nil]
    rfl
  | @cons form value forms values first others ih =>
    have further := ih (value :: before)
    rw [List.reverse_cons, List.append_assoc, List.singleton_append] at further
    simp only [Evaluator.allOnto, Action.bind_apply]
    rw [nested_of_enter? entered, first]
    exact further

/-- **When all items have values, the step of a call applies the first to the others.** -/
theorem step_of_hasValue (ordinary : specialForm? head = none)
    (entered : room.enter? Room.evaluation = some inner) {function : Value} {arguments : List Value}
    (each : List.Forall₂ (HasValue files fuel inner frame world) (head :: operands)
      (function :: arguments)) :
    step files (evaluate files fuel) room (.list (head :: operands)) frame world =
      apply files (evaluate files fuel) room function arguments world := by
  have values := allOnto_of_hasValue entered each []
  simp only [step, ordinary, applyItems, Action.bind_apply, Evaluator.all]
  rw [values]
  rfl

/-- **The call of a native operation is the operation on the values of the operands.** -/
theorem evaluate_native (ordinary : specialForm? head = none)
    (entered : room.enter? Room.evaluation = some inner) {operation : Builtin} {root : FrameId}
    {arguments : List Value}
    (each : List.Forall₂ (HasValue files fuel inner frame world) (head :: operands)
      (.native operation root :: arguments))
    (roomy : ∀ after, operation.call files (evaluate files fuel) room root arguments world ≠
      .failed (.fault .stackExhausted) after) :
    evaluate files (fuel + 1) room (.list (head :: operands)) frame world =
      operation.call files (evaluate files fuel) room root arguments world := by
  have stepped := step_of_hasValue ordinary entered each
  simp only [apply, Action.bind_apply] at stepped
  cases called : operation.call files (evaluate files fuel) room root arguments world with
  | finished value after =>
    rw [evaluate, stepped, called]
    rfl
  | outOfFuel => rw [evaluate, stepped, called]
  | failed failure after =>
    rw [called] at stepped
    refine evaluate_of_step_fails stepped ?_
    rintro rfl
    exact roomy after called

/-- The call of a native operation that changes nothing has the value of the operation. -/
theorem hasValue_call (ordinary : specialForm? head = none)
    (entered : room.enter? Room.evaluation = some inner) {operation : Builtin} {root : FrameId}
    {arguments : List Value}
    (each : List.Forall₂ (HasValue files fuel inner frame world) (head :: operands)
      (.native operation root :: arguments))
    {value : Value}
    (called : operation.call files (evaluate files fuel) room root arguments world =
      .finished value world) :
    HasValue files (fuel + 1) room frame world (.list (head :: operands)) value := by
  rw [HasValue, evaluate_native ordinary entered each, called]
  intro after exhausted
  rw [called] at exhausted
  cases exhausted

/-- **The call of a closure goes on with the body.** -/
theorem evaluate_call (ordinary : specialForm? head = none)
    (entered : room.enter? Room.evaluation = some inner) {identity : Nat} {parameter : String}
    {body argument : Value} {outer : FrameId}
    (each : List.Forall₂ (HasValue files fuel inner frame world) (head :: operands)
      [.closure identity [parameter] body outer, argument]) :
    evaluate files (fuel + 1) room (.list (head :: operands)) frame world =
      evaluate files fuel room body world.heap.size (world.calling outer parameter argument) := by
  rw [evaluate, step_of_hasValue ordinary entered each]
  rfl

/-- A call fails when its first operand does. -/
theorem evaluate_of_operand_fails (ordinary : specialForm? head = none)
    (entered : room.enter? Room.evaluation = some inner) {function operand : Value}
    {further : List Value} (head_value : HasValue files fuel inner frame world head function)
    {failure : Failure} {after : World}
    (fails : evaluate files fuel inner operand frame world = .failed failure after) :
    evaluate files (fuel + 1) room (.list (head :: operand :: further)) frame world =
      .failed failure after := by
  have stepped : step files (evaluate files fuel) room (.list (head :: operand :: further)) frame
      world = .failed failure after := by
    simp only [step, ordinary, applyItems, Evaluator.all, Evaluator.allOnto, Action.bind_apply]
    rw [nested_of_enter? entered, head_value]
    dsimp only
    rw [nested_of_enter? entered, fails]
  refine evaluate_of_step_fails stepped ?_
  rintro rfl
  exact evaluate_ne_stackExhausted _ _ _ _ _ _ _ fails

end Evaluation

end Lisp
