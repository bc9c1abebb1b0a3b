import Lisp.Value.Shown

/-!
# Frames and the heap

A frame binds names to values and may stand inside an outer frame.  It lists its
bindings in the order of their first definition; defining a name again changes
its value and leaves it in its place.

Frames live in a heap for good, and a frame is known by its place there.  An
outer frame is always older than the frames inside it, so every walk outward
ends.  The heap keeps this with its frames.
-/

set_option autoImplicit false

namespace Lisp

/-- Bindings in the order of their first definition. -/
abbrev Bindings := List (String × Value)

namespace Bindings

/-- The value that a name is bound to. -/
def find? (name : String) : Bindings → Option Value
  | [] => none
  | (bound, value) :: rest => if bound = name then some value else find? name rest

/-- Binds a name: in its old place if it is bound already, at the end if not. -/
def define (name : String) (value : Value) : Bindings → Bindings
  | [] => [(name, value)]
  | (bound, old) :: rest =>
    if bound = name then (bound, value) :: rest else (bound, old) :: define name value rest

/-- Whether a name is bound. -/
def binds (bindings : Bindings) (name : String) : Bool :=
  (find? name bindings).isSome

/-- A name defined has its new value, and every other name the one it had. -/
theorem find?_define (bindings : Bindings) (name other : String) (value : Value) :
    find? other (bindings.define name value) =
      if name = other then some value else find? other bindings := by
  induction bindings with
  | nil => simp [define, find?]
  | cons binding rest ih =>
    obtain ⟨bound, old⟩ := binding
    by_cases same : bound = name
    · subst same
      by_cases found : bound = other <;> simp [define, find?, found]
    · by_cases found : bound = other
      · subst found
        simp [define, find?, same, Ne.symm same]
      · simp [define, find?, same, found, ih]

/-- Defining a name keeps the names in place; a new one comes last. -/
theorem map_fst_define (bindings : Bindings) (name : String) (value : Value) :
    (bindings.define name value).map Prod.fst =
      if bindings.binds name then bindings.map Prod.fst else bindings.map Prod.fst ++ [name] := by
  induction bindings with
  | nil => simp [define, binds, find?]
  | cons binding rest ih =>
    obtain ⟨bound, old⟩ := binding
    by_cases same : bound = name
    · simp [define, binds, find?, same]
    · simp only [define, binds, find?, same, if_false, List.map_cons] at ih ⊢
      cases found : (find? name rest).isSome <;> simp_all

end Bindings

/-- A frame: its bindings, and the frame around it if there is one. -/
structure Frame where
  bindings : Bindings
  outer? : Option FrameId

/-- All frames made so far; each stands inside older frames only. -/
structure Heap where
  frames : Array Frame
  outer_lt : ∀ (frame : FrameId) (bound : frame < frames.size) (outer : FrameId),
    frames[frame].outer? = some outer → outer < frame

namespace Heap

/-- The heap without frames. -/
def empty : Heap where
  frames := #[]
  outer_lt := by simp

/-- The number of frames, which is also the place of the next one. -/
def size (heap : Heap) : Nat :=
  heap.frames.size

/-- The frame at a place. -/
def frame? (heap : Heap) (frame : FrameId) : Option Frame :=
  heap.frames[frame]?

/-- The bindings of a frame. -/
def bindings (heap : Heap) (frame : FrameId) : Bindings :=
  ((heap.frame? frame).map Frame.bindings).getD []

/-- The frame around a frame. -/
def outer? (heap : Heap) (frame : FrameId) : Option FrameId :=
  (heap.frame? frame).bind Frame.outer?

theorem lt_of_outer? {heap : Heap} {frame outer : FrameId}
    (inside : heap.outer? frame = some outer) : outer < frame := by
  simp only [outer?, frame?, Option.bind_eq_some_iff] at inside
  obtain ⟨found, at_place, link⟩ := inside
  obtain ⟨bound, rfl⟩ := Array.getElem?_eq_some_iff.1 at_place
  exact heap.outer_lt frame bound outer link

/-! ## New frames and definitions -/

/-- The heap with a frame added at the end.  The frame stands inside `outer?` if
that is a frame of the heap, and alone if not. -/
def push (heap : Heap) (outer? : Option FrameId) : Heap where
  frames := heap.frames.push ⟨[], outer?.filter (· < heap.size)⟩
  outer_lt := by
    intro frame bound outer link
    rw [Array.getElem_push] at link
    split at link
    · exact heap.outer_lt frame _ outer link
    · next outside =>
      simp only [Option.filter_eq_some_iff, decide_eq_true_eq] at link
      exact Nat.lt_of_lt_of_le link.2 (Nat.le_of_not_lt outside)

/-- The heap with a name defined in one frame. -/
def define (heap : Heap) (frame : FrameId) (name : String) (value : Value) : Heap where
  frames := heap.frames.modify frame fun old => { old with bindings := old.bindings.define name value }
  outer_lt := by
    intro place bound outer link
    simp only [Array.size_modify] at bound
    refine heap.outer_lt place bound outer ?_
    rw [Array.getElem_modify] at link
    split at link <;> simpa using link

@[simp]
theorem size_define (heap : Heap) (frame : FrameId) (name : String) (value : Value) :
    (heap.define frame name value).size = heap.size := by
  simp [size, define]

@[simp]
theorem size_push (heap : Heap) (outer? : Option FrameId) :
    (heap.push outer?).size = heap.size + 1 := by
  simp [size, push]

/-- A definition changes the bindings of its own frame alone. -/
theorem bindings_define (heap : Heap) (frame place : FrameId) (name : String) (value : Value)
    (present : frame < heap.size) :
    (heap.define frame name value).bindings place =
      if place = frame then (heap.bindings frame).define name value else heap.bindings place := by
  unfold size at present
  by_cases same : place = frame
  · subst same
    simp [bindings, frame?, define, present, Array.getElem_modify]
  · simp [bindings, frame?, define, Array.getElem?_modify, same, Ne.symm same]

/-- A definition changes no frame's place in the heap. -/
@[simp]
theorem outer?_define (heap : Heap) (frame place : FrameId) (name : String) (value : Value) :
    (heap.define frame name value).outer? place = heap.outer? place := by
  simp only [outer?, frame?, define, Array.getElem?_modify]
  split
  · cases heap.frames[place]? <;> simp
  · rfl

/-- A new frame leaves the frames before it as they are. -/
theorem frame?_push (heap : Heap) (around? : Option FrameId) (place : FrameId) :
    (heap.push around?).frame? place =
      if place = heap.size then some ⟨[], around?.filter (· < heap.size)⟩
      else heap.frame? place := by
  simp only [frame?, push, Array.getElem?_push]
  rfl

/-! ## Walking outward -/

/-- The nearest frame, from the given one outward, that binds a name. -/
def find? (heap : Heap) (frame : FrameId) (name : String) : Option FrameId :=
  if (heap.bindings frame).binds name then some frame
  else
    match _inside : heap.outer? frame with
    | none => none
    | some outer => heap.find? outer name
termination_by frame
decreasing_by exact lt_of_outer? (by assumption)

/-- The value of a name as seen from a frame. -/
def lookup? (heap : Heap) (frame : FrameId) (name : String) : Option Value :=
  (heap.find? frame name).bind fun owner => (heap.bindings owner).find? name

/-- The frames from the given one outward. -/
def chain (heap : Heap) (frame : FrameId) : List FrameId :=
  match _inside : heap.outer? frame with
  | none => [frame]
  | some outer => frame :: heap.chain outer
termination_by frame
decreasing_by exact lt_of_outer? (by assumption)

/-- The outermost frame around a frame. -/
def root (heap : Heap) (frame : FrameId) : FrameId :=
  match _inside : heap.outer? frame with
  | none => frame
  | some outer => heap.root outer
termination_by frame
decreasing_by exact lt_of_outer? (by assumption)

/-! ## Frames in messages -/

/-- The texts of bindings, each a name with its value. -/
def shownBindings (room : Room) : Bindings → Except Fault (List String)
  | [] => .ok []
  | (name, value) :: rest => do
    let text ← value.shown room
    let texts ← shownBindings room rest
    return (name ++ ": " ++ text) :: texts

/-- One frame with its bindings. -/
def shownFrame (heap : Heap) (room : Room) (frame : FrameId) : Except Fault String := do
  let texts ← shownBindings room (heap.bindings frame)
  return "\x7b" ++ ", ".intercalate texts ++ "\x7d"

/-- One frame, with a mark when it stands inside another. -/
def shownInnermost (heap : Heap) (room : Room) (frame : FrameId) : Except Fault String := do
  let text ← heap.shownFrame room frame
  return if (heap.outer? frame).isSome then text ++ " -> ..." else text

/-- A frame inside others, or the summary of the outermost. -/
def shownOuter (heap : Heap) (room : Room) (frame : FrameId) : Except Fault String :=
  if (heap.outer? frame).isSome then heap.shownFrame room frame
  else .ok ("<root " ++ (heap.bindings frame).length.repr ++ " bindings>")

/-- All frames from the given one outward; the outermost of several is summarised. -/
def shownChain (heap : Heap) (room : Room) (frame : FrameId) : Except Fault String := do
  let first ← heap.shownFrame room frame
  let others ← (heap.chain frame).tail.mapM (heap.shownOuter room)
  return "<Environment chain: " ++ " -> ".intercalate (first :: others) ++ ">"

end Heap

end Lisp
