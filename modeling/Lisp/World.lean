import Lisp.Error
import Lisp.Heap

/-!
# The world of a run, and actions on it

A run changes three things: the heap of frames, the count of closures made so
far, and the text written out.  An action is a step in such a world.  It
finishes with a value, or fails; either way it leaves a world behind, so that
what was done before a failure stays done.  An action that is given too little
fuel to come to an end leaves nothing.
-/

set_option autoImplicit false

namespace Lisp

/-- What a run can change. -/
structure World where
  heap : Heap
  closures : Nat
  output : String

/-- The world before any run. -/
def World.initial : World :=
  ⟨.empty, 0, ""⟩

/-- How an action ended. -/
inductive Outcome (α : Type) where
  | finished (value : α) (world : World)
  | failed (failure : Failure) (world : World)
  | outOfFuel

instance {α : Type} : Inhabited (Outcome α) :=
  ⟨.outOfFuel⟩

/-- A step in a world. -/
def Action (α : Type) : Type :=
  World → Outcome α

instance {α : Type} : Inhabited (Action α) :=
  ⟨fun _ => .outOfFuel⟩

namespace Action

variable {α β : Type}

/-- Changes nothing. -/
@[always_inline, inline]
def pure (value : α) : Action α :=
  fun world => .finished value world

/-- Goes on from the value and the world of a finished action. -/
@[always_inline, inline]
def bind (action : Action α) (next : α → Action β) : Action β :=
  fun world =>
    match action world with
    | .finished value world => next value world
    | .failed failure world => .failed failure world
    | .outOfFuel => .outOfFuel

instance : Monad Action where
  pure := Action.pure
  bind := Action.bind

@[simp]
theorem pure_apply (value : α) (world : World) :
    (Pure.pure value : Action α) world = .finished value world :=
  rfl

theorem bind_apply (action : Action α) (next : α → Action β) (world : World) :
    (action >>= next) world =
      match action world with
      | .finished value world => next value world
      | .failed failure world => .failed failure world
      | .outOfFuel => .outOfFuel :=
  rfl

/-- Fails and leaves the world as it is. -/
def fail (failure : Failure) : Action α :=
  fun world => .failed failure world

/-- Fails with an error. -/
def throw (error : Error) : Action α :=
  fail (.error error)

/-- The result of a computation that needs no world. -/
@[always_inline, inline]
def ofExcept : Except Failure α → Action α
  | .ok value => pure value
  | .error failure => fail failure

/-- Fails with an error about a value, which its message shows. -/
def throwShowing (room : Room) (value : Value) (error : String → Error) : Action α :=
  match value.shown room with
  | .ok text => throw (error text)
  | .error fault => fail (.fault fault)

/-! ## Steps on the heap and the output -/

/-- The value of a name as seen from a frame. -/
def lookup (frame : FrameId) (name : String) : Action Value :=
  fun world =>
    match world.heap.lookup? frame name with
    | some value => .finished value world
    | none => .failed (.error (.unbound name)) world

/-- Defines a name in a frame. -/
def define (frame : FrameId) (name : String) (value : Value) : Action Unit :=
  fun world => .finished () { world with heap := world.heap.define frame name value }

/-- A new frame, inside another or alone. -/
def newFrame (outer? : Option FrameId) : Action FrameId :=
  fun world =>
    let place := world.heap.size
    .finished place { world with heap := world.heap.push outer? }

/-- A closure made in a frame, with an identity of its own. -/
def newClosure (parameters : List String) (body : Value) (frame : FrameId) : Action Value :=
  fun world =>
    .finished (.closure world.closures parameters body frame)
      { world with closures := world.closures + 1 }

/-- Writes text out. -/
def write (text : String) : Action Unit :=
  fun world => .finished () { world with output := world.output ++ text }

/-- Defines several names in a frame, one after the other. -/
def defineAll (frame : FrameId) : List (String × Value) → Action Unit
  | [] => pure ()
  | (name, value) :: rest => do
    define frame name value
    defineAll frame rest

end Action

end Lisp
