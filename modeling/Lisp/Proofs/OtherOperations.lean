import Lisp.Interpreter

/-!
# Evaluation with other native operations

What native operations do is left open here: the evaluator is the one of programs in all
but the calls of native operations (`Operations.evaluate`), and with the operations that
there are it is that evaluator (`Operations.evaluate_call`).

So it can be asked on which arguments a run calls them: whatever they do on others makes
no difference to the run.
-/

set_option autoImplicit false

namespace Lisp

/-- What native operations do when they are called. -/
abbrev Operations :=
  Builtin → FileTree → Evaluator → Room → FrameId → List Value → Action Value

namespace Operations

variable (operations : Operations)

/-- Applies a value to arguments. -/
def apply (files : FileTree) (evaluator : Evaluator) (room : Room) (head : Value)
    (arguments : List Value) : Action Step :=
  match head with
  | .native operation root => do
    return .done (← operations operation files evaluator room root arguments)
  | other => Lisp.apply files evaluator room other arguments

/-- Evaluates all items of a list and applies the first value to the others. -/
def applyItems (files : FileTree) (evaluator : Evaluator) (room : Room) (frame : FrameId)
    (items : List Value) : Action Step := do
  match ← evaluator.all room frame items with
  | head :: arguments => operations.apply files evaluator room head arguments
  | [] => return .done (.list [])

/-- One step of evaluating a form in a frame. -/
def step (files : FileTree) (evaluator : Evaluator) (room : Room) (form : Value)
    (frame : FrameId) : Action Step :=
  match form with
  | .symbol name => do return .done (← Action.lookup frame name)
  | .list (head :: operands) =>
    match specialForm? head with
    | some special => special.perform evaluator room frame operands
    | none => operations.applyItems files evaluator room frame (head :: operands)
  | other => return .done other

/-- Evaluates a form in a frame by steps. -/
def evaluate (files : FileTree) : Nat → Room → Value → FrameId → World → Outcome Value
  | 0, _, _, _, _ => .outOfFuel
  | fuel + 1, room, form, frame, world =>
    match operations.step files (evaluate files fuel) room form frame world with
    | .finished (.done value) world => .finished value world
    | .finished (.tail form frame) world => evaluate files fuel room form frame world
    | .failed (.fault .stackExhausted) world => .failed (.error .evaluationTooDeep) world
    | .failed failure world => .failed failure world
    | .outOfFuel => .outOfFuel

/-- Evaluates forms one after the other; the value is that of the last, or `last`
without forms. -/
def evaluateForms (host : Host) (frame : FrameId) (last : Value) : List Value → Action Value
  | [] => pure last
  | form :: rest => do
    let value ← operations.evaluate host.files host.fuel host.room form frame
    evaluateForms host frame value rest

/-- Evaluates all forms of a source text in a frame. -/
def evaluateSource (host : Host) (frame : FrameId) (source : String) : Action Value := do
  let forms ← Action.ofExcept (readProgram host.room source)
  operations.evaluateForms host frame .nil forms

/-- Loads a file with `load-file`, whatever that name is bound to. -/
def load (interpreter : Interpreter) (host : Host) (path : String) : Action Value :=
  operations.evaluate host.files host.fuel host.room (.list [.symbol "load-file", .string path])
    interpreter.root

/-! ## The operations that there are -/

theorem apply_call : apply Builtin.call = Lisp.apply := by
  funext files evaluator room head arguments
  cases head <;> rfl

theorem applyItems_call : applyItems Builtin.call = Lisp.applyItems := by
  funext files evaluator room frame items
  rw [applyItems, apply_call]
  rfl

theorem step_call : step Builtin.call = Lisp.step := by
  funext files evaluator room form frame
  cases form with
  | list items =>
    cases items with
    | nil => rfl
    | cons head operands =>
      rw [step, applyItems_call]
      rfl
  | _ => rfl

/-- **With the native operations that there are, evaluation is as it is.** -/
theorem evaluate_call : evaluate Builtin.call = Lisp.evaluate := by
  funext files fuel
  induction fuel with
  | zero => rfl
  | succ fuel ih =>
    funext room form frame world
    rw [evaluate, step_call, ih]
    rfl

theorem evaluateForms_call : evaluateForms Builtin.call = Host.evaluateForms := by
  funext host frame last forms
  induction forms generalizing last with
  | nil => rfl
  | cons form rest ih =>
    simp only [evaluateForms, Host.evaluateForms, Host.evaluate, evaluate_call, ih]

theorem evaluateSource_call : evaluateSource Builtin.call = Host.evaluateSource := by
  funext host frame source
  rw [evaluateSource, Host.evaluateSource, evaluateForms_call]

theorem load_call : load Builtin.call = Interpreter.load := by
  funext interpreter host path
  rw [load, Interpreter.load, evaluate_call]
  rfl

end Operations

end Lisp
