import Lisp.Evaluation
import Lisp.Prelude

/-!
# Hosts

A host lends programs what they cannot make: files to read, room on the stack,
and fuel for each evaluation.  With it forms and source texts are evaluated, and
roots are built, which hold the native operations and what the prelude defined.

A source text is read as a whole before any of it is evaluated, so a text that
cannot be read changes nothing.
-/

set_option autoImplicit false

namespace Lisp

/-- What the host of interpreters provides: files, fuel for each evaluation, and
room on the stack. -/
structure Host where
  files : FileTree
  fuel : Nat
  room : Room

namespace Host

/-- The stack limit before any setting is applied. -/
def startLimit : Int := 1000

/-- A host with the stack limit that the settings give when another was in force
before. -/
def ofSettings (settings : Settings) (before : Int) (files : FileTree) (fuel : Nat) :
    Except Fault Host := do
  let limit ← settings.limitFrom before
  return ⟨files, fuel, .frames limit.toNat⟩

/-! ## Evaluating source texts -/

/-- Evaluates a form in a frame. -/
def evaluate (host : Host) (form : Value) (frame : FrameId) : Action Value :=
  Lisp.evaluate host.files host.fuel host.room form frame

/-- One step of evaluating a form in a frame. -/
def step (host : Host) (form : Value) (frame : FrameId) : Action Step :=
  Lisp.step host.files (Lisp.evaluate host.files host.fuel) host.room form frame

/-- Applies a value to arguments. -/
def apply (host : Host) (head : Value) (arguments : List Value) : Action Step :=
  Lisp.apply host.files (Lisp.evaluate host.files host.fuel) host.room head arguments

/-- Calls a native operation. -/
def call (host : Host) (operation : Builtin) (root : FrameId) (arguments : List Value) :
    Action Value :=
  operation.call host.files (Lisp.evaluate host.files host.fuel) host.room root arguments

/-- Evaluates forms one after the other; the value is that of the last, or `last`
without forms. -/
def evaluateForms (host : Host) (frame : FrameId) (last : Value) : List Value → Action Value
  | [] => pure last
  | form :: rest => do
    let value ← host.evaluate form frame
    evaluateForms host frame value rest

/-- Evaluates all forms of a source text in a frame. -/
def evaluateSource (host : Host) (frame : FrameId) (source : String) : Action Value := do
  let forms ← Action.ofExcept (readProgram host.room source)
  host.evaluateForms frame .nil forms

/-! ## Building a root -/

/-- The bindings of the native operations for a root. -/
def nativeBindings (root : FrameId) : Bindings :=
  Builtin.all.map fun operation => (operation.name, .native operation root)

/-- Evaluates prelude files in a root, reading each when its turn comes. -/
def loadPaths (host : Host) (root : FrameId) : List Path → Action Unit
  | [] => pure ()
  | path :: rest => do
    let text ← Action.ofExcept (Prelude.text host.files path)
    let _ ← host.evaluateSource root text
    loadPaths host root rest

/-- Evaluates the packaged prelude in a root. -/
def loadPackaged (host : Host) (root : FrameId) : List (String × String) → Action Unit
  | [] => pure ()
  | (_, text) :: rest => do
    let _ ← host.evaluateSource root text
    loadPackaged host root rest

/-- Evaluates the prelude in a root. -/
def loadPrelude (host : Host) (settings : Settings) (root : FrameId) : Action Unit :=
  if Prelude.isPackaged settings then host.loadPackaged root Prelude.packaged
  else
    match Prelude.paths settings host.files with
    | .ok paths => host.loadPaths root paths
    | .error fault => Action.fail (.fault fault)

/-- Builds a root: native operations first, then the prelude. -/
def newRoot (host : Host) (settings : Settings) : Action FrameId := do
  let root ← Action.newFrame none
  Action.defineAll root (nativeBindings root)
  host.loadPrelude settings root
  return root

end Host

end Lisp
