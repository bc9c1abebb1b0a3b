import Lisp.Builtin.Call
import Lisp.SpecialForm

/-!
# Evaluation

A symbol evaluates to what it is bound to, a list that is no special form to the
application of its first value to the others, and anything else to itself.

Evaluation is a loop of steps.  A step may end in a tail: a form that takes the
place of the one at hand, at the same level of nesting.  So branches, bodies and
last forms cost no room however many follow each other; only forms evaluated
inside a step nest.

The loop is bounded by fuel, which counts the steps in a row and the levels of
nesting; a result does not depend on it.  Running out of room inside a step is
an error of the program.
-/

set_option autoImplicit false

namespace Lisp

/-! ## Application -/

/-- Applies a closure: the body is the tail, in a new frame with the parameters
bound inside the closure's own. -/
def applyClosure (parameters : List String) (body : Value) (frame : FrameId)
    (arguments : List Value) : Action Step :=
  if arguments.length = parameters.length then do
    let inner ← Action.newFrame (some frame)
    Action.defineAll inner (parameters.zip arguments)
    return .tail body inner
  else
    Action.throw
      (.closureArity (Value.closureText parameters) parameters.length arguments.length)

/-- Applies a value to arguments. -/
def apply (files : FileTree) (evaluator : Evaluator) (room : Room) (head : Value)
    (arguments : List Value) : Action Step :=
  match head with
  | .closure _ parameters body frame => applyClosure parameters body frame arguments
  | .native operation root => do
    return .done (← operation.call files evaluator room root arguments)
  | other => do
    let text ← Action.ofExcept (other.render .readable room)
    Action.throw (.notCallable text)

/-! ## Steps -/

/-- The special form that a list with this head is, if it is one. -/
def specialForm? : Value → Option SpecialForm
  | .symbol name => SpecialForm.ofName? name
  | _ => none

/-- Evaluates all items of a list and applies the first value to the others. -/
def applyItems (files : FileTree) (evaluator : Evaluator) (room : Room) (frame : FrameId)
    (items : List Value) : Action Step := do
  match ← evaluator.all room frame items with
  | head :: arguments => apply files evaluator room head arguments
  | [] => return .done (.list [])

/-- One step of evaluating a form in a frame. -/
def step (files : FileTree) (evaluator : Evaluator) (room : Room) (form : Value)
    (frame : FrameId) : Action Step :=
  match form with
  | .symbol name => do return .done (← Action.lookup frame name)
  | .list (head :: operands) =>
    match specialForm? head with
    | some special => special.perform evaluator room frame operands
    | none => applyItems files evaluator room frame (head :: operands)
  | other => return .done other

/-! ## The loop -/

/-- Evaluates a form in a frame by steps. -/
def evaluate (files : FileTree) : Nat → Room → Value → FrameId → World → Outcome Value
  | 0, _, _, _, _ => .outOfFuel
  | fuel + 1, room, form, frame, world =>
    match step files (evaluate files fuel) room form frame world with
    | .finished (.done value) world => .finished value world
    | .finished (.tail form frame) world => evaluate files fuel room form frame world
    | .failed (.fault .stackExhausted) world => .failed (.error .evaluationTooDeep) world
    | .failed failure world => .failed failure world
    | .outOfFuel => .outOfFuel

end Lisp
