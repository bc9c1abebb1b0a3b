import Lisp.World

/-!
# Environments as hosts use them

A host names what it defines and looks up by values.  Only symbols can be
defined, and nothing else is ever found.  Frames are searched by key, and a list
is no key: to look for one is a fault, whatever the frames bind.

Several definitions at once are given as pairs of a mapping, whose names are
keys; of pairs with the same symbol the first fixes the place and the last the
value.
-/

set_option autoImplicit false

namespace Lisp.Environment

/-- Defines a name in a frame. -/
def define (room : Room) (frame : FrameId) (name value : Value) : Action Unit :=
  match name with
  | .symbol symbol => Action.define frame symbol value
  | other => Action.throwShowing room other .notName

/-- Defines names in a frame one after the other, up to the first that is no symbol. -/
def defineEach (room : Room) (frame : FrameId) : List (Value × Value) → Action Unit
  | [] => pure ()
  | (name, value) :: rest => do
    define room frame name value
    defineEach room frame rest

/-- Whether two names are the same symbol. -/
def sameSymbol : Value → Value → Bool
  | .symbol name, .symbol name' => name == name'
  | _, _ => false

/-- Puts a pair in the place of the one with the same symbol, or at the end. -/
def insertPair (name value : Value) : List (Value × Value) → List (Value × Value)
  | [] => [(name, value)]
  | (placed, old) :: rest =>
    if sameSymbol placed name then (placed, value) :: rest
    else (placed, old) :: insertPair name value rest

/-- Pairs with each symbol once. -/
def merge (pairs : List (Value × Value)) : List (Value × Value) :=
  pairs.foldl (fun merged pair => insertPair pair.1 pair.2 merged) []

/-- Defines all pairs in a frame. -/
def update (room : Room) (frame : FrameId) (pairs : List (Value × Value)) : Action Unit :=
  defineEach room frame (merge pairs)

/-- Searches the frames outward for the nearest one that binds a name. -/
def search (heap : Heap) (frame : FrameId) : Value → Except Fault (Option FrameId)
  | .symbol name => .ok (heap.find? frame name)
  | .list _ => .error .listAsName
  | _ => .ok none

/-- The nearest frame outward that binds a name, if the search for it finds one. -/
def find? (heap : Heap) (frame : FrameId) (name : Value) : Option FrameId :=
  (search heap frame name).toOption.join

/-- The value of a name as seen from a frame. -/
def lookup (room : Room) (frame : FrameId) (name : Value) : Action Value :=
  match name with
  | .symbol symbol => Action.lookup frame symbol
  | .list _ => Action.fail (.fault .listAsName)
  | other =>
    match other.plain room with
    | .ok text => Action.throw (.unbound text)
    | .error fault => Action.fail (.fault fault)

end Lisp.Environment
