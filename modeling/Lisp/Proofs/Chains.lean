import Lisp.Proofs.WorldsAlike

/-!
# Chains of frames

The frames from a given one outward form a chain that gets older at each place and ends at
the root.  Whatever is asked of a name is asked of the frames of the chain in turn: the
nearest that binds it is the one that is found (`Heap.find?_eq_find?_chain`), and its value
there is the value of the name (`Heap.lookup?_eq_findSome?_chain`).

So a definition is seen from the frames whose chains come to it before they come to another
frame that binds the name (`Heap.lookup?_define_of_comesTo`), and from no others
(`Heap.lookup?_define_of_not_comesTo`).
-/

set_option autoImplicit false

namespace Lisp

/-- Whether a walk comes to a place and is not stopped before. -/
def ComesTo (place : FrameId) (stops : FrameId → Prop) : List FrameId → Prop
  | [] => False
  | first :: rest => first = place ∨ ¬ stops first ∧ ComesTo place stops rest

namespace Heap

variable {heap : Heap} {frame place : FrameId}

/-- What holds of a frame whenever it holds of the frame around it, holds of every frame. -/
theorem outward_induction (heap : Heap) {motive : FrameId → Prop}
    (inward : ∀ frame, (∀ outer, heap.outer? frame = some outer → motive outer) → motive frame)
    (frame : FrameId) : motive frame := by
  induction frame using Nat.strongRecOn with
  | ind frame ih => exact inward frame fun outer around => ih outer (lt_of_outer? around)

/-! ## The frames of a chain -/

theorem chain_eq (heap : Heap) (frame : FrameId) :
    heap.chain frame = frame :: (heap.outer? frame).elim [] heap.chain := by
  rw [chain.eq_def]
  split
  · next alone => rw [alone, Option.elim]
  · next around => rw [around, Option.elim]

theorem chain_of_outer? {outer : FrameId} (around : heap.outer? frame = some outer) :
    heap.chain frame = frame :: heap.chain outer := by
  rw [chain_eq, around, Option.elim]

theorem chain_of_alone (alone : heap.outer? frame = none) : heap.chain frame = [frame] := by
  rw [chain_eq, alone, Option.elim]

theorem le_of_mem_chain (member : place ∈ heap.chain frame) : place ≤ frame := by
  induction frame using heap.outward_induction with
  | inward frame ih =>
    cases around : heap.outer? frame with
    | none =>
      rw [chain_of_alone around, List.mem_singleton] at member
      exact member.le
    | some outer =>
      rw [chain_of_outer? around, List.mem_cons] at member
      rcases member with rfl | further
      · exact Nat.le_refl _
      · exact (ih outer around further).trans (lt_of_outer? around).le

/-- **A chain gets older at each place.** -/
theorem pairwise_chain (heap : Heap) (frame : FrameId) : (heap.chain frame).Pairwise (· > ·) := by
  induction frame using heap.outward_induction with
  | inward frame ih =>
    cases around : heap.outer? frame with
    | none =>
      rw [chain_of_alone around]
      exact List.pairwise_singleton _ _
    | some outer =>
      rw [chain_of_outer? around, List.pairwise_cons]
      refine ⟨fun other member => ?_, ih outer around⟩
      exact Nat.lt_of_le_of_lt (le_of_mem_chain member) (lt_of_outer? around)

/-- **A chain ends at the root.** -/
theorem getLast?_chain (heap : Heap) (frame : FrameId) :
    (heap.chain frame).getLast? = some (heap.root frame) := by
  induction frame using heap.outward_induction with
  | inward frame ih =>
    rw [root.eq_def]
    split
    · next alone =>
      rw [chain_of_alone alone]
      rfl
    · next outer around =>
      rw [chain_of_outer? around, List.getLast?_cons, ih outer around, Option.getD_some]

theorem outer?_root (heap : Heap) (frame : FrameId) : heap.outer? (heap.root frame) = none := by
  induction frame using heap.outward_induction with
  | inward frame ih =>
    rw [root.eq_def]
    split
    · next alone => exact alone
    · next outer around => exact ih outer around

theorem chain_define (heap : Heap) (place : FrameId) (name : String) (value : Value)
    (frame : FrameId) : (heap.define place name value).chain frame = heap.chain frame := by
  induction frame using heap.outward_induction with
  | inward frame ih =>
    rw [chain_eq, outer?_define]
    cases around : heap.outer? frame with
    | none => rw [chain_of_alone around, Option.elim]
    | some outer => rw [chain_of_outer? around, Option.elim, ih outer around]

/-! ## Names along a chain -/

/-- **The frame that is found is the nearest that binds the name.** -/
theorem find?_eq_find?_chain (heap : Heap) (frame : FrameId) (name : String) :
    heap.find? frame name =
      (heap.chain frame).find? fun place => (heap.bindings place).binds name := by
  induction frame using heap.outward_induction with
  | inward frame ih =>
    rw [find?.eq_def, chain_eq, List.find?_cons]
    cases (heap.bindings frame).binds name with
    | true => rfl
    | false =>
      simp only [Bool.false_eq_true, if_false]
      split
      · next alone =>
        rw [alone]
        rfl
      · next outer around =>
        rw [around]
        exact ih outer around

/-- **The value of a name is the one that it has nearest.** -/
theorem lookup?_eq_findSome?_chain (heap : Heap) (frame : FrameId) (name : String) :
    heap.lookup? frame name =
      (heap.chain frame).findSome? fun place => (heap.bindings place).find? name := by
  induction frame using heap.outward_induction with
  | inward frame ih =>
    rw [chain_eq, List.findSome?_cons]
    cases found : (heap.bindings frame).find? name with
    | some value => exact lookup?_of_find? found
    | none =>
      rw [lookup?_of_unbound found]
      cases around : heap.outer? frame with
      | none => rfl
      | some outer => exact ih outer around

/-- A name has a value just where a frame that binds it is found. -/
theorem isSome_lookup? (heap : Heap) (frame : FrameId) (name : String) :
    (heap.lookup? frame name).isSome = (heap.find? frame name).isSome := by
  rw [lookup?_eq_findSome?_chain, find?_eq_find?_chain, List.isSome_findSome?, List.isSome_find?]
  rfl

/-! ## A definition, seen from a frame -/

/-- A definition changes what is seen of no other name. -/
theorem lookup?_define_of_ne {name other : String} (different : name ≠ other) (value : Value)
    (present : place < heap.size) (frame : FrameId) :
    (heap.define place name value).lookup? frame other = heap.lookup? frame other := by
  have each : ∀ at_place, ((heap.define place name value).bindings at_place).find? other =
      (heap.bindings at_place).find? other := by
    intro at_place
    by_cases apart : at_place = place
    · rw [apart, heap.find?_bindings_define present, if_neg different]
    · rw [heap.bindings_define_of_ne apart]
  simp only [lookup?_eq_findSome?_chain, chain_define, each]

/-- Whether a frame binds a name. -/
def Binds (heap : Heap) (name : String) (place : FrameId) : Prop :=
  (heap.bindings place).find? name ≠ none

/-- **A definition is seen from a frame when its chain comes to it.** -/
theorem lookup?_define_of_comesTo {name : String} (value : Value) (present : place < heap.size)
    (reached : ComesTo place (heap.Binds name) (heap.chain frame)) :
    (heap.define place name value).lookup? frame name = some value := by
  induction frame using heap.outward_induction with
  | inward frame ih =>
    by_cases here : frame = place
    · subst here
      exact lookup?_of_find? (by rw [heap.find?_bindings_define present, if_pos rfl])
    · rw [chain_eq] at reached
      obtain ⟨passes, further⟩ := reached.resolve_left here
      have unbound : ((heap.define place name value).bindings frame).find? name = none := by
        rw [heap.bindings_define_of_ne here]
        exact not_not.1 passes
      rw [lookup?_of_unbound unbound, outer?_define]
      cases around : heap.outer? frame with
      | none =>
        rw [around] at further
        exact further.elim
      | some outer =>
        rw [around] at further
        exact ih outer around further

/-- **A definition makes no difference to a frame whose chain does not come to it.** -/
theorem lookup?_define_of_not_comesTo {name : String} (value : Value)
    (passed : ¬ ComesTo place (heap.Binds name) (heap.chain frame)) :
    (heap.define place name value).lookup? frame name = heap.lookup? frame name := by
  induction frame using heap.outward_induction with
  | inward frame ih =>
    rw [chain_eq, ComesTo, not_or] at passed
    obtain ⟨elsewhere, stopped⟩ := passed
    have same := heap.bindings_define_of_ne elsewhere name value
    cases found : (heap.bindings frame).find? name with
    | some old => rw [lookup?_of_find? found, lookup?_of_find? (same ▸ found)]
    | none =>
      rw [lookup?_of_unbound found, lookup?_of_unbound (same ▸ found), outer?_define]
      cases around : heap.outer? frame with
      | none => rfl
      | some outer =>
        rw [around] at stopped
        exact ih outer around fun reached => stopped ⟨not_not.2 found, reached⟩

end Heap

end Lisp
