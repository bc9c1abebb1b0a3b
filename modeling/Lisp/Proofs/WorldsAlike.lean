import Lisp.Proofs.Calls
import Lisp.Proofs.Renaming

/-!
# Worlds under other names

One world follows another when it holds the same frames and bindings under new names, and
when what is made next in both has names that belong together too (`Renaming.Follows`).
It may hold other frames besides.

What actions do to one world they do to a world that follows it: looking up, defining,
making frames and closures.
-/

set_option autoImplicit false

namespace Lisp

/-! ## Bindings under other names -/

namespace Bindings

/-- Bindings with the values renamed. -/
def rename (naming : Renaming) (bindings : Bindings) : Bindings :=
  bindings.map (Prod.map id (Value.rename naming))

variable (naming : Renaming) (bindings : Bindings) (name : String)

theorem find?_rename :
    (bindings.rename naming).find? name = (bindings.find? name).map (Value.rename naming) := by
  induction bindings with
  | nil => rfl
  | cons binding rest ih =>
    obtain ⟨bound, value⟩ := binding
    by_cases same : bound = name
    · simp [rename, find?, same]
    · simpa [rename, find?, same] using ih

theorem define_rename (value : Value) :
    (bindings.rename naming).define name (value.rename naming) =
      (bindings.define name value).rename naming := by
  induction bindings with
  | nil => rfl
  | cons binding rest ih =>
    obtain ⟨bound, old⟩ := binding
    by_cases same : bound = name
    · simp [rename, define, same]
    · simpa [rename, define, same] using ih

variable {bindings name}

/-- Every binding behind a definition was there before or is the new one. -/
theorem mem_or_eq_of_mem_define {value : Value} {binding : String × Value}
    (member : binding ∈ bindings.define name value) : binding ∈ bindings ∨ binding = (name, value) := by
  induction bindings with
  | nil => exact .inr (List.mem_singleton.1 member)
  | cons first rest ih =>
    rw [define] at member
    split at member
    · next same =>
      rcases List.mem_cons.1 member with rfl | member
      · exact .inr (by rw [same])
      · exact .inl (List.mem_cons_of_mem _ member)
    · rcases List.mem_cons.1 member with rfl | member
      · exact .inl (by simp)
      · exact (ih member).imp_left (List.mem_cons_of_mem _)

end Bindings

namespace Heap

/-- A name that a frame does not bind is looked up in the frame around it, if there is one. -/
theorem lookup?_of_unbound {heap : Heap} {frame : FrameId} {name : String}
    (unbound : (heap.bindings frame).find? name = none) :
    heap.lookup? frame name = (heap.outer? frame).bind (heap.lookup? · name) := by
  cases around : heap.outer? frame with
  | some outer => exact lookup?_of_outer? unbound around
  | none =>
    have skips : ¬ (heap.bindings frame).binds name = true := by simp [Bindings.binds, unbound]
    have nowhere : heap.find? frame name = none := by
      rw [find?.eq_def, if_neg skips]
      split
      · rfl
      · next inside =>
        rw [around] at inside
        cases inside
    rw [lookup?, nowhere]
    rfl

theorem bindings_push (heap : Heap) (outer? : Option FrameId) (frame : FrameId) :
    (heap.push outer?).bindings frame = heap.bindings frame := by
  rw [bindings, frame?_push]
  split
  · next last =>
    subst last
    rw [bindings, frame?, size, Array.getElem?_size]
    rfl
  · rfl

theorem bindings_of_absent {heap : Heap} {frame : FrameId} (absent : heap.size ≤ frame) :
    heap.bindings frame = [] := by
  rw [bindings, frame?, Array.getElem?_eq_none absent]
  rfl

theorem outer?_of_absent {heap : Heap} {frame : FrameId} (absent : heap.size ≤ frame) :
    heap.outer? frame = none := by
  rw [outer?, frame?, Array.getElem?_eq_none absent]
  rfl

theorem outer?_push (heap : Heap) (around? : Option FrameId) (frame : FrameId) :
    (heap.push around?).outer? frame =
      if frame = heap.size then around?.filter (· < heap.size) else heap.outer? frame := by
  rw [outer?, frame?_push]
  split <;> rfl

end Heap

/-! ## Ordinary worlds -/

namespace World.IsOrdinary

variable {world : World} (ordinary : world.IsOrdinary)
include ordinary

theorem lookup? {frame : FrameId} {name : String} {value : Value}
    (found : world.heap.lookup? frame name = some value) : value.IsOrdinary world.extent := by
  simp only [Heap.lookup?, Option.bind_eq_some_iff] at found
  obtain ⟨owner, _, found⟩ := found
  obtain ⟨binding, member, rfl⟩ := Bindings.mem_of_find? found
  exact (ordinary owner binding member).2

/-- Bindings stay as they are under a renaming that leaves what has been made as it is. -/
theorem bindings_rename_eq {naming : Renaming} (fixes : naming.Fixes world.extent)
    (frame : FrameId) : (world.heap.bindings frame).rename naming = world.heap.bindings frame := by
  refine (List.map_congr_left fun binding member => ?_).trans (List.map_id _)
  exact Prod.ext rfl ((ordinary frame binding member).2.rename_eq fixes)

theorem define {frame : FrameId} (inside : frame < world.heap.size) {name : String}
    (readable : IsReadableName name) {value : Value} (isOrdinary : value.IsOrdinary world.extent) :
    World.IsOrdinary { world with heap := world.heap.define frame name value } := by
  intro place binding member
  have same : World.extent { world with heap := world.heap.define frame name value } =
      world.extent := by simp [World.extent]
  rw [same]
  rw [Heap.bindings_define _ _ _ _ _ inside] at member
  split at member
  · rcases Bindings.mem_or_eq_of_mem_define member with before | rfl
    · exact ordinary frame binding before
    · exact ⟨readable, isOrdinary⟩
  · exact ordinary place binding member

theorem push (outer? : Option FrameId) :
    World.IsOrdinary { world with heap := world.heap.push outer? } := by
  intro place binding member
  rw [Heap.bindings_push] at member
  obtain ⟨readable, isOrdinary⟩ := ordinary place binding member
  refine ⟨readable, isOrdinary.mono ⟨?_, Nat.le_refl _⟩⟩
  simp [World.extent]

theorem newClosure : World.IsOrdinary { world with closures := world.closures + 1 } := by
  intro place binding member
  obtain ⟨readable, isOrdinary⟩ := ordinary place binding member
  exact ⟨readable, isOrdinary.mono ⟨Nat.le_refl _, Nat.le_succ _⟩⟩

theorem write (text : String) : World.IsOrdinary { world with output := world.output ++ text } :=
  ordinary

end World.IsOrdinary

/-! ## Worlds that follow others -/

/-- Whether a world holds, under new names, all that an ordinary world holds, and goes on
naming what is made as that one does. -/
structure Renaming.Follows (naming : Renaming) (world world' : World) : Prop where
  ordinary : world.IsOrdinary
  frame : ∀ more, naming.frame (world.heap.size + more) = world'.heap.size + more
  identity : ∀ more, naming.identity (world.closures + more) = world'.closures + more
  bindings : ∀ frame,
    world'.heap.bindings (naming.frame frame) = (world.heap.bindings frame).rename naming
  outer? : ∀ frame,
    world'.heap.outer? (naming.frame frame) = (world.heap.outer? frame).map naming.frame

namespace Renaming.Follows

variable {naming : Renaming} {world world' : World} (follows : naming.Follows world world')
include follows

theorem frame_size : naming.frame world.heap.size = world'.heap.size :=
  follows.frame 0

theorem identity_closures : naming.identity world.closures = world'.closures :=
  follows.identity 0

theorem lt_size_iff (frame : FrameId) :
    naming.frame frame < world'.heap.size ↔ frame < world.heap.size := by
  constructor
  · intro there
    by_contra absent
    obtain ⟨more, rfl⟩ := Nat.exists_eq_add_of_le (Nat.le_of_not_lt absent)
    rw [follows.frame] at there
    exact Nat.not_lt_of_le (Nat.le_add_right _ _) there
  · intro there
    by_contra absent
    obtain ⟨more, later⟩ := Nat.exists_eq_add_of_le (Nat.le_of_not_lt absent)
    rw [← follows.frame] at later
    obtain rfl := naming.frame_injective later
    exact absurd there (Nat.not_lt_of_le (Nat.le_add_right _ _))

/-- A name has the same value in both worlds. -/
theorem lookup? (frame : FrameId) (name : String) :
    world'.heap.lookup? (naming.frame frame) name =
      (world.heap.lookup? frame name).map (Value.rename naming) := by
  induction frame using Nat.strongRecOn with
  | ind frame ih =>
    have found' := Bindings.find?_rename naming (world.heap.bindings frame) name
    rw [← follows.bindings] at found'
    cases found : (world.heap.bindings frame).find? name with
    | some value =>
      rw [found] at found'
      rw [Heap.lookup?_of_find? found, Heap.lookup?_of_find? found']
      rfl
    | none =>
      rw [found] at found'
      rw [Heap.lookup?_of_unbound found, Heap.lookup?_of_unbound found', follows.outer?]
      cases around : world.heap.outer? frame with
      | none => rfl
      | some outer => exact ih outer (Heap.lt_of_outer? around)

/-- The same definition in both worlds. -/
theorem define {frame : FrameId} (inside : frame < world.heap.size) {name : String}
    (readable : IsReadableName name) {value : Value} (ordinary : value.IsOrdinary world.extent) :
    naming.Follows { world with heap := world.heap.define frame name value }
      { world' with
        heap := world'.heap.define (naming.frame frame) name (value.rename naming) } where
  ordinary := follows.ordinary.define inside readable ordinary
  frame more := by simpa using follows.frame more
  identity := follows.identity
  bindings place := by
    rw [Heap.bindings_define _ _ _ _ _ inside,
      Heap.bindings_define _ _ _ _ _ ((follows.lt_size_iff frame).2 inside)]
    by_cases same : place = frame
    · rw [if_pos same, if_pos (congrArg naming.frame same), follows.bindings,
        Bindings.define_rename]
    · rw [if_neg same, if_neg (naming.frame_injective.ne same), follows.bindings]
  outer? place := by simpa using follows.outer? place

/-- A new frame in both worlds, inside frames that belong together. -/
theorem push (around? : Option FrameId) :
    naming.Follows { world with heap := world.heap.push around? }
      { world' with heap := world'.heap.push (around?.map naming.frame) } where
  ordinary := follows.ordinary.push around?
  frame more := by
    have next := follows.frame (1 + more)
    simpa only [Heap.size_push, Nat.add_assoc] using next
  identity := follows.identity
  bindings place := by rw [Heap.bindings_push, Heap.bindings_push, follows.bindings]
  outer? place := by
    rw [Heap.outer?_push, Heap.outer?_push, ← follows.frame_size]
    by_cases last : place = world.heap.size
    · rw [if_pos last, if_pos (congrArg naming.frame last)]
      cases around? with
      | none => rfl
      | some around =>
        have inside := follows.lt_size_iff around
        rw [← follows.frame_size] at inside
        simp only [Option.map_some, Option.filter, inside]
        split <;> rfl
    · rw [if_neg last, if_neg (naming.frame_injective.ne last), follows.outer?]

theorem newClosure :
    naming.Follows { world with closures := world.closures + 1 }
      { world' with closures := world'.closures + 1 } where
  ordinary := follows.ordinary.newClosure
  frame := follows.frame
  identity more := by
    have next := follows.identity (1 + more)
    simpa only [Nat.add_assoc] using next
  bindings := follows.bindings
  outer? := follows.outer?

theorem write (text text' : String) :
    naming.Follows { world with output := world.output ++ text }
      { world' with output := world'.output ++ text' } where
  ordinary := follows.ordinary.write text
  frame := follows.frame
  identity := follows.identity
  bindings := follows.bindings
  outer? := follows.outer?

end Renaming.Follows

end Lisp
