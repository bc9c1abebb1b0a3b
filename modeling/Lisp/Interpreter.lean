import Lisp.Host

/-!
# Interpreters

An interpreter is a root in a world.  Several may live in one world; each keeps
its definitions in its own root.
-/

set_option autoImplicit false

namespace Lisp

/-- An interpreter, known by its root frame. -/
structure Interpreter where
  root : FrameId

namespace Interpreter

/-- Makes an interpreter. -/
def create (host : Host) (settings : Settings) : Action Interpreter := do
  return ⟨← host.newRoot settings⟩

/-- Evaluates a source text; definitions persist. -/
def evaluate (interpreter : Interpreter) (host : Host) (source : String) : Action Value :=
  host.evaluateSource interpreter.root source

/-- Evaluates a source text and renders its value readably. -/
def evaluateAndPrint (interpreter : Interpreter) (host : Host) (source : String) : Action String := do
  let value ← interpreter.evaluate host source
  Action.ofExcept (value.render .readable host.room)

/-- Loads a file with `load-file`, whatever that name is bound to. -/
def load (interpreter : Interpreter) (host : Host) (path : String) : Action Value :=
  host.evaluate (.list [.symbol "load-file", .string path]) interpreter.root

end Interpreter

end Lisp
