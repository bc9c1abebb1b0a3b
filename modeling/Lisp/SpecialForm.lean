import Lisp.Step

/-!
# Special forms

A list headed by the name of a special form is not an application: the form
decides which of its operands are evaluated, and where.  The name alone makes
the form, whatever it is bound to.

Each form checks the number and shape of its operands before it evaluates any of
them; the names of a `let*` are checked one by one, as they are bound.
-/

set_option autoImplicit false

namespace Lisp

/-- The special forms. -/
inductive SpecialForm where
  | define
  | bind
  | sequence
  | choose
  | function
  deriving DecidableEq, Repr

namespace SpecialForm

/-- The name of a special form. -/
def name : SpecialForm → String
  | .define => "def!"
  | .bind => "let*"
  | .sequence => "do"
  | .choose => "if"
  | .function => "fn*"

/-- Every special form. -/
def all : List SpecialForm :=
  [.define, .bind, .sequence, .choose, .function]

/-- The special form of a name. -/
def ofName? (name : String) : Option SpecialForm :=
  all.find? fun form => form.name == name

/-! ## Definition -/

/-- `(def! name form)` defines the name in the current frame. -/
def performDefine (evaluator : Evaluator) (room : Room) (frame : FrameId) :
    List Value → Action Step
  | [.symbol name, form] => do
    let value ← evaluator.nested Room.evaluation room form frame
    Action.define frame name value
    return .done value
  | [other, _] => Action.throwShowing room other .definitionName
  | _ => Action.throw .definitionArity

/-! ## Local bindings -/

/-- Binds names to the values of forms, each of which sees the names before it.  A
form without a name before it is left over. -/
def bindPairs (evaluator : Evaluator) (room : Room) (frame : FrameId) : List Value → Action Unit
  | .symbol name :: form :: rest => do
    let value ← evaluator.nested Room.evaluation room form frame
    Action.define frame name value
    bindPairs evaluator room frame rest
  | other :: _ :: _ => Action.throwShowing room other .bindingName
  | _ => pure ()

/-- `(let* (name form ...) body)` evaluates the body in a new frame with the names
bound. -/
def performBind (evaluator : Evaluator) (room : Room) (frame : FrameId) :
    List Value → Action Step
  | [.list bindings, body] =>
    if bindings.length % 2 = 0 then do
      let inner ← Action.newFrame (some frame)
      bindPairs evaluator room inner bindings
      return .tail body inner
    else Action.throw .bindingPairs
  | [_, _] => Action.throw .bindingPairs
  | _ => Action.throw .bindingArity

/-! ## Sequence and choice -/

/-- `(do form ...)` evaluates the forms in order; the last is the tail, and without
forms the value is nil. -/
def performSequence (evaluator : Evaluator) (room : Room) (frame : FrameId) :
    List Value → Action Step
  | [] => return .done .nil
  | [last] => return .tail last frame
  | form :: rest => do
    let _ ← evaluator.nested Room.evaluation room form frame
    performSequence evaluator room frame rest

/-- The branch of an `if` for a condition; the second is nil when it is left out. -/
def branch (frame : FrameId) (condition whenTrue : Value) (whenFalse? : Option Value) : Step :=
  if condition.isTruthy then .tail whenTrue frame
  else
    match whenFalse? with
    | some whenFalse => .tail whenFalse frame
    | none => .done .nil

/-- `(if condition form form)` evaluates the condition; its branch is the tail. -/
def performChoose (evaluator : Evaluator) (room : Room) (frame : FrameId) :
    List Value → Action Step
  | [condition, whenTrue] => do
    let value ← evaluator.nested Room.evaluation room condition frame
    return branch frame value whenTrue none
  | [condition, whenTrue, whenFalse] => do
    let value ← evaluator.nested Room.evaluation room condition frame
    return branch frame value whenTrue (some whenFalse)
  | _ => Action.throw .conditionalArity

/-! ## Functions -/

/-- The names that symbols stand for, if all values are symbols. -/
def names? : List Value → Option (List String)
  | [] => some []
  | .symbol name :: rest => (names? rest).map (name :: ·)
  | _ :: _ => none

/-- `(fn* (name ...) body)` makes a closure over the current frame. -/
def performFunction (room : Room) (frame : FrameId) : List Value → Action Step
  | [parameters, body] =>
    let names? :=
      match parameters with
      | .list items => names? items
      | _ => none
    match names? with
    | some names => do return .done (← Action.newClosure names body frame)
    | none => Action.throwShowing room parameters .parameters
  | _ => Action.throw .functionArity

/-! ## All forms -/

/-- One step of a special form on its operands. -/
def perform (form : SpecialForm) (evaluator : Evaluator) (room : Room) (frame : FrameId)
    (operands : List Value) : Action Step :=
  match form with
  | .define => performDefine evaluator room frame operands
  | .bind => performBind evaluator room frame operands
  | .sequence => performSequence evaluator room frame operands
  | .choose => performChoose evaluator room frame operands
  | .function => performFunction room frame operands

end SpecialForm

end Lisp
