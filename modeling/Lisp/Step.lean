import Lisp.Room
import Lisp.World

/-!
# Steps of an evaluation

A step of an evaluation either comes to a value or names a form, with the frame
to evaluate it in, whose value is the value of the whole: the tail of the form
that the step took apart.  Steps evaluate inner forms with an evaluator that
they are given, and each of these is nested one level deeper.
-/

set_option autoImplicit false

namespace Lisp

/-- What one step of an evaluation comes to. -/
inductive Step where
  | done (value : Value)
  | tail (form : Value) (frame : FrameId)

/-- The text of a tail in a message. -/
def Step.shownTail (room : Room) (form : Value) : Except Fault String := do
  return "TailCall(" ++ (← form.shown room) ++ ")"

/-- Evaluates a form in a frame, with the given room. -/
abbrev Evaluator := Room → Value → FrameId → Action Value

namespace Evaluator

/-- Evaluates a form one level deeper, a level that takes `cost` frames. -/
def nested (evaluator : Evaluator) (cost : Nat) (room : Room) (form : Value) (frame : FrameId) :
    Action Value :=
  match room.enter? cost with
  | some inner => evaluator inner form frame
  | none => Action.fail (.fault .stackExhausted)

/-- Evaluates forms from left to right, behind values obtained already, which are
held in reverse. -/
def allOnto (evaluator : Evaluator) (room : Room) (frame : FrameId) (values : List Value) :
    List Value → Action (List Value)
  | [] => pure values.reverse
  | form :: rest => do
    let value ← evaluator.nested Room.evaluation room form frame
    allOnto evaluator room frame (value :: values) rest

/-- The values of forms, evaluated from left to right. -/
def all (evaluator : Evaluator) (room : Room) (frame : FrameId) (forms : List Value) :
    Action (List Value) :=
  evaluator.allOnto room frame [] forms

end Evaluator

end Lisp
