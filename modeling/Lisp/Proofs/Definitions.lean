import Mathlib.Data.List.Induction
import Lisp.World

/-!
# Definitions

Names defined one after the other have the values of their latest definitions
(`Bindings.find?_defineAll`) and stand in the order of their first ones
(`Bindings.map_fst_defineAll`).

What holds of all values that are bound holds of whatever is looked up, and goes on
doing so when what is defined has it too (`Heap.Each`).
-/

set_option autoImplicit false

namespace Lisp

namespace Bindings

/-- Bindings with several names defined, one after the other. -/
def defineAll (before : Bindings) (bindings : List (String × Value)) : Bindings :=
  bindings.foldl (fun defined binding => defined.define binding.1 binding.2) before

theorem defineAll_cons (before : Bindings) (binding : String × Value)
    (rest : List (String × Value)) :
    before.defineAll (binding :: rest) = (before.define binding.1 binding.2).defineAll rest :=
  rfl

theorem defineAll_append (before : Bindings) (first second : List (String × Value)) :
    before.defineAll (first ++ second) = (before.defineAll first).defineAll second :=
  List.foldl_append

/-! ## Values -/

/-- **A name has the value of its latest definition.** -/
theorem find?_defineAll (before : Bindings) (bindings : List (String × Value)) (name : String) :
    (before.defineAll bindings).find? name =
      (bindings.reverse.lookup name).or (before.find? name) := by
  induction bindings generalizing before with
  | nil => rfl
  | cons binding rest ih =>
    obtain ⟨defined, value⟩ := binding
    rw [defineAll_cons, ih, List.reverse_cons, List.lookup_append, Option.or_assoc, find?_define]
    by_cases same : defined = name
    · simp [same]
    · have different : (name == defined) = false := beq_eq_false_iff_ne.2 (Ne.symm same)
      simp [List.lookup_cons, same, different]

theorem find?_defineAll_of_not_mem {name : String} {bindings : List (String × Value)}
    (absent : name ∉ bindings.map Prod.fst) (before : Bindings) :
    (before.defineAll bindings).find? name = before.find? name := by
  have unknown : bindings.reverse.lookup name = none := by
    refine List.lookup_eq_none_iff.2 fun binding member => bne_iff_ne.2 ?_
    rintro rfl
    exact absent (List.mem_map_of_mem (List.mem_reverse.1 member))
  rw [find?_defineAll, unknown, Option.none_or]

/-- Of different names each is found with its value once all are defined. -/
theorem find?_defineAll_of_mem {bindings : List (String × Value)}
    (different : (bindings.map Prod.fst).Nodup) {binding : String × Value}
    (member : binding ∈ bindings) (before : Bindings) :
    (before.defineAll bindings).find? binding.1 = some binding.2 := by
  induction bindings generalizing before with
  | nil => cases member
  | cons first rest ih =>
    rw [List.map_cons, List.nodup_cons] at different
    rw [defineAll_cons]
    rcases List.mem_cons.1 member with rfl | member
    · rw [find?_defineAll_of_not_mem different.1, find?_define, if_pos rfl]
    · exact ih different.2 member _

/-! ## Names -/

theorem binds_iff_mem_map_fst {bindings : Bindings} {name : String} :
    bindings.binds name = true ↔ name ∈ bindings.map Prod.fst := by
  induction bindings with
  | nil => simp [binds, find?]
  | cons binding rest ih =>
    obtain ⟨bound, value⟩ := binding
    by_cases same : bound = name
    · simp [binds, find?, same]
    · rw [List.map_cons, List.mem_cons, ← ih, binds, binds, find?, if_neg same]
      simp [Ne.symm same]

/-- **Names stand in the order of their first definitions.** -/
theorem map_fst_defineAll (bindings : List (String × Value)) :
    (defineAll [] bindings).map Prod.fst = (bindings.map Prod.fst).eraseDups := by
  induction bindings using List.reverseRecOn with
  | nil => rfl
  | append_singleton earlier binding ih =>
    obtain ⟨name, value⟩ := binding
    have bound : (defineAll [] earlier).binds name = true ↔ name ∈ earlier.map Prod.fst := by
      rw [binds_iff_mem_map_fst, ih, List.mem_eraseDups]
    have last : (defineAll [] earlier).defineAll [(name, value)] =
        (defineAll [] earlier).define name value := rfl
    rw [defineAll_append, last, map_fst_define, List.map_append, List.eraseDups_append, ← ih]
    by_cases before : name ∈ earlier.map Prod.fst
    · rw [if_pos (bound.2 before)]
      simp [List.removeAll, before]
    · rw [if_neg (before ∘ bound.1)]
      simp [List.removeAll, before, List.eraseDups_cons]

end Bindings

/-! ## In a frame -/

namespace Heap

/-- The heap with several names defined in one frame, one after the other. -/
def defineAll (heap : Heap) (frame : FrameId) (bindings : List (String × Value)) : Heap :=
  bindings.foldl (fun defined binding => defined.define frame binding.1 binding.2) heap

theorem defineAll_cons (heap : Heap) (frame : FrameId) (binding : String × Value)
    (rest : List (String × Value)) :
    heap.defineAll frame (binding :: rest) =
      (heap.define frame binding.1 binding.2).defineAll frame rest :=
  rfl

@[simp]
theorem size_defineAll (heap : Heap) (frame : FrameId) (bindings : List (String × Value)) :
    (heap.defineAll frame bindings).size = heap.size := by
  induction bindings generalizing heap with
  | nil => rfl
  | cons binding rest ih => rw [defineAll_cons, ih, size_define]

@[simp]
theorem outer?_defineAll (heap : Heap) (frame place : FrameId)
    (bindings : List (String × Value)) :
    (heap.defineAll frame bindings).outer? place = heap.outer? place := by
  induction bindings generalizing heap with
  | nil => rfl
  | cons binding rest ih => rw [defineAll_cons, ih, outer?_define]

/-- Definitions change the bindings of their own frame alone. -/
theorem bindings_defineAll {heap : Heap} {frame : FrameId} (present : frame < heap.size)
    (place : FrameId) (bindings : List (String × Value)) :
    (heap.defineAll frame bindings).bindings place =
      if place = frame then (heap.bindings frame).defineAll bindings else heap.bindings place := by
  induction bindings generalizing heap with
  | nil =>
    split
    · next same =>
      rw [same]
      rfl
    · rfl
  | cons binding rest ih =>
    obtain ⟨name, value⟩ := binding
    have defined : ∀ other, (heap.define frame name value).bindings other = _ :=
      fun other => heap.bindings_define frame other name value present
    rw [defineAll_cons, ih (by simpa using present), defined, defined, if_pos rfl,
      Bindings.defineAll_cons]
    split <;> rfl

end Heap

theorem Action.defineAll_eq (frame : FrameId) (bindings : List (String × Value)) (world : World) :
    defineAll frame bindings world =
      .finished () { world with heap := world.heap.defineAll frame bindings } := by
  induction bindings generalizing world with
  | nil => rfl
  | cons binding rest ih => exact ih _

/-! ## All that is bound -/

theorem Bindings.mem_of_find? {bindings : Bindings} {name : String} {value : Value}
    (found : find? name bindings = some value) : ∃ binding ∈ bindings, binding.2 = value := by
  induction bindings with
  | nil => cases found
  | cons binding rest ih =>
    rw [find?] at found
    split at found
    · cases found
      exact ⟨binding, by simp, rfl⟩
    · obtain ⟨other, member, same⟩ := ih found
      exact ⟨other, List.mem_cons_of_mem _ member, same⟩

/-- Every binding behind a definition was there before or holds the new value. -/
theorem Bindings.mem_define {bindings : Bindings} {name : String} {value : Value}
    {binding : String × Value} (member : binding ∈ bindings.define name value) :
    binding ∈ bindings ∨ binding.2 = value := by
  induction bindings with
  | nil =>
    rw [define, List.mem_singleton] at member
    exact .inr (by rw [member])
  | cons first rest ih =>
    rw [define] at member
    split at member
    · rcases List.mem_cons.1 member with rfl | member
      · exact .inr rfl
      · exact .inl (List.mem_cons_of_mem _ member)
    · rcases List.mem_cons.1 member with rfl | member
      · exact .inl (by simp)
      · rcases ih member with before | new
        · exact .inl (List.mem_cons_of_mem _ before)
        · exact .inr new

namespace Heap

/-- A definition leaves every frame but its own as it is. -/
theorem frame?_define_of_ne (heap : Heap) {frame place : FrameId} (other : place ≠ frame)
    (name : String) (value : Value) :
    (heap.define frame name value).frame? place = heap.frame? place := by
  simp [frame?, define, Array.getElem?_modify, Ne.symm other]

/-- A definition in a frame that is not there changes nothing. -/
theorem frame?_define_of_absent (heap : Heap) {frame : FrameId} (absent : heap.size ≤ frame)
    (place : FrameId) (name : String) (value : Value) :
    (heap.define frame name value).frame? place = heap.frame? place := by
  by_cases same : place = frame
  · subst same
    simp only [frame?, define, Array.getElem?_modify]
    rw [Array.getElem?_eq_none absent]
    rfl
  · exact frame?_define_of_ne heap same name value

theorem bindings_define_of_ne (heap : Heap) {frame place : FrameId} (other : place ≠ frame)
    (name : String) (value : Value) :
    (heap.define frame name value).bindings place = heap.bindings place := by
  rw [bindings, bindings, heap.frame?_define_of_ne other]

/-- What a frame binds when a name is defined in it. -/
theorem find?_bindings_define (heap : Heap) {frame : FrameId} (present : frame < heap.size)
    (name other : String) (value : Value) :
    ((heap.define frame name value).bindings frame).find? other =
      if name = other then some value else (heap.bindings frame).find? other := by
  rw [bindings_define heap frame frame name value present, if_pos rfl, Bindings.find?_define]

@[simp]
theorem bindings_empty (frame : FrameId) : empty.bindings frame = [] := by
  simp [bindings, frame?, empty]

/-- Whether all values that frames bind have a property. -/
def Each (property : Value → Prop) (heap : Heap) : Prop :=
  ∀ frame, ∀ binding ∈ heap.bindings frame, property binding.2

theorem each_empty (property : Value → Prop) : empty.Each property := by
  intro frame binding member
  simp at member

namespace Each

variable {property : Value → Prop} {heap : Heap} (each : heap.Each property)
include each

theorem lookup? {frame : FrameId} {name : String} {value : Value}
    (found : heap.lookup? frame name = some value) : property value := by
  simp only [Heap.lookup?, Option.bind_eq_some_iff] at found
  obtain ⟨owner, _, found⟩ := found
  obtain ⟨binding, member, rfl⟩ := Bindings.mem_of_find? found
  exact each owner binding member

theorem define {frame : FrameId} {name : String} {value : Value} (good : property value) :
    (heap.define frame name value).Each property := by
  intro place binding member
  by_cases present : frame < heap.size
  · rw [bindings_define heap frame place name value present] at member
    split at member
    · rcases Bindings.mem_define member with before | rfl
      · exact each frame binding before
      · exact good
    · exact each place binding member
  · rw [bindings, heap.frame?_define_of_absent (Nat.le_of_not_lt present)] at member
    exact each place binding member

theorem push {outer? : Option FrameId} : (heap.push outer?).Each property := by
  intro place binding member
  rw [bindings, frame?_push] at member
  split at member
  · cases member
  · exact each place binding member

end Each

end Heap

end Lisp
