import Lisp.Proofs.SideBySide

/-!
# Parts of a world that stay apart

When one world follows another it may hold other frames besides.  What goes on side by side
in the two leaves these as they are (`Renaming.Reaches.others`).  So a world that is followed
by this one too, under names of its own, is still followed when something has been done in
another part, if what is made next is given the names that come next now
(`Renaming.Follows.past`).

All that can be come to from a frame that has its name from a followed world has its name
from that world (`Renaming.Follows.exists_of_reachable`).
-/

set_option autoImplicit false

namespace Lisp

/-! ## Frames that values and heaps lead to -/

/-- Whether a value leads to a frame: a closure leads to the one that it was made in, a native
operation to its root, and each to what the values in it lead to. -/
inductive Value.LeadsTo (place : FrameId) : Value → Prop where
  | item {items : List Value} {item : Value} :
      item ∈ items → LeadsTo place item → LeadsTo place (.list items)
  | body {identity : Nat} {parameters : List String} {body : Value} {frame : FrameId} :
      LeadsTo place body → LeadsTo place (.closure identity parameters body frame)
  | closure (identity : Nat) (parameters : List String) (body : Value) :
      LeadsTo place (.closure identity parameters body place)
  | native (operation : Builtin) : LeadsTo place (.native operation place)

/-- The frames that can be come to from a frame, going outward and through the values that
names are bound to. -/
inductive Heap.Reachable (heap : Heap) (start : FrameId) : FrameId → Prop where
  | start : Reachable heap start start
  | outward {frame outer : FrameId} :
      Reachable heap start frame → heap.outer? frame = some outer → Reachable heap start outer
  | bound {frame place : FrameId} {binding : String × Value} :
      Reachable heap start frame → binding ∈ heap.bindings frame →
        binding.2.LeadsTo place → Reachable heap start place

namespace Value.IsOrdinary

variable {extent : Extent} {value : Value} (ordinary : value.IsOrdinary extent)
include ordinary

/-- Under new names an ordinary value leads to frames that have been made, under new names. -/
theorem exists_of_leadsTo_rename {naming : Renaming} {place : FrameId}
    (leads : (value.rename naming).LeadsTo place) :
    ∃ frame < extent.frames, naming.frame frame = place := by
  induction ordinary with
  | list _ ih =>
    rw [rename_list] at leads
    cases leads with
    | item among leads =>
      obtain ⟨item, member, rfl⟩ := List.mem_map.1 among
      exact ih item member leads
  | closure _ _ _ there ih =>
    rw [rename] at leads
    cases leads with
    | body leads => exact ih leads
    | closure => exact ⟨_, there, rfl⟩
  | native there =>
    rw [rename] at leads
    cases leads
    exact ⟨_, there, rfl⟩
  | _ =>
    simp only [rename] at leads
    cases leads

/-- An ordinary value is the same under names that agree on what has been made. -/
theorem rename_congr {naming naming' : Renaming}
    (frames : ∀ frame < extent.frames, naming'.frame frame = naming.frame frame)
    (identities : ∀ identity < extent.closures,
      naming'.identity identity = naming.identity identity) :
    value.rename naming' = value.rename naming := by
  induction ordinary with
  | list _ ih =>
    rw [rename_list, rename_list, List.map_congr_left ih]
  | closure known _ _ there ih =>
    rw [rename, rename, ih, frames _ there, identities _ known]
  | native there => rw [rename, rename, frames _ there]
  | _ => simp only [rename]

end Value.IsOrdinary

namespace Renaming

/-! ## Reaching other frames -/

namespace Follows

variable {naming : Renaming} {world world' : World} (follows : naming.Follows world world')
include follows

/-- **All that can be come to from a frame under its new name is a frame under its new name.** -/
theorem exists_of_reachable {root place : FrameId} (inside : root < world.heap.size)
    (reachable : world'.heap.Reachable (naming.frame root) place) :
    ∃ frame < world.heap.size, naming.frame frame = place := by
  induction reachable with
  | start => exact ⟨root, inside, rfl⟩
  | outward _ outward ih =>
    obtain ⟨frame, there, rfl⟩ := ih
    rw [follows.outer?, Option.map_eq_some_iff] at outward
    obtain ⟨outer, around, rfl⟩ := outward
    exact ⟨outer, (Heap.lt_of_outer? around).trans there, rfl⟩
  | bound _ among leads ih =>
    obtain ⟨frame, _, rfl⟩ := ih
    rw [follows.bindings] at among
    obtain ⟨binding, member, rfl⟩ := List.mem_map.1 among
    exact (follows.ordinary frame binding member).2.exists_of_leadsTo_rename leads

/-- A frame under its new name is one of the frames that have been made under their new names,
or stands for one that is made later. -/
theorem lt_size_or_le (frame : FrameId) :
    frame < world.heap.size ∨ world'.heap.size ≤ naming.frame frame := by
  rw [← follows.lt_size_iff frame]
  exact Nat.lt_or_ge _ _

/-- What has been made in the world that follows is still there later. -/
theorem more {after after' : World} (reaches : naming.Reaches world world' after after') :
    world'.extent ≤ after'.extent := by
  constructor
  · obtain ⟨next, same⟩ := Nat.exists_eq_add_of_le reaches.more.1
    calc world'.heap.size ≤ world'.heap.size + next := Nat.le_add_right _ _
      _ = naming.frame after.heap.size := by rw [← follows.frame]; exact congrArg _ same.symm
      _ = after'.heap.size := reaches.follows.frame_size
  · obtain ⟨next, same⟩ := Nat.exists_eq_add_of_le reaches.more.2
    calc world'.closures ≤ world'.closures + next := Nat.le_add_right _ _
      _ = naming.identity after.closures := by rw [← follows.identity]; exact congrArg _ same.symm
      _ = after'.closures := reaches.follows.identity_closures

end Follows

/-! ## Names for what is made next -/

/-- Names skipped from one place on, as far as to another. -/
def skip (before after name : Nat) : Nat :=
  if name < before then name else name + (after - before)

theorem skip_injective (before after : Nat) : Function.Injective (skip before after) := by
  intro name name' same
  unfold skip at same
  split at same <;> split at same <;> omega

theorem skip_of_lt {before after name : Nat} (there : name < before) :
    skip before after name = name :=
  if_pos there

theorem skip_add {before after : Nat} (more : before ≤ after) (next : Nat) :
    skip before after (before + next) = after + next := by
  unfold skip
  rw [if_neg (Nat.not_lt.2 (Nat.le_add_right before next))]
  omega

/-- The names that a renaming gives, but for what is made next, once more has been made in the
world that follows. -/
def past (naming : Renaming) (before after : Extent) : Renaming where
  frame := skip before.frames after.frames ∘ naming.frame
  identity := skip before.closures after.closures ∘ naming.identity
  frame_injective := (skip_injective _ _).comp naming.frame_injective
  identity_injective := (skip_injective _ _).comp naming.identity_injective

namespace Follows

variable {naming : Renaming} {world world' : World} (follows : naming.Follows world world')
include follows

theorem past_frame {frame : FrameId} (there : frame < world.heap.size) (after : Extent) :
    (naming.past world'.extent after).frame frame = naming.frame frame :=
  skip_of_lt ((follows.lt_size_iff frame).2 there)

theorem lt_closures {identity : Nat} (known : identity < world.closures) :
    naming.identity identity < world'.closures := by
  by_contra later
  obtain ⟨more, same⟩ := Nat.exists_eq_add_of_le (Nat.le_of_not_lt later)
  rw [← follows.identity] at same
  obtain rfl := naming.identity_injective same
  exact absurd known (Nat.not_lt.2 (Nat.le_add_right _ _))

section Later

variable {after' : World} (more : world'.extent ≤ after'.extent)
include more

theorem past_frame_add (next : Nat) :
    (naming.past world'.extent after'.extent).frame (world.heap.size + next) =
      after'.heap.size + next :=
  (congrArg (skip _ _) (follows.frame next)).trans (skip_add more.1 next)

theorem past_identity_add (next : Nat) :
    (naming.past world'.extent after'.extent).identity (world.closures + next) =
      after'.closures + next :=
  (congrArg (skip _ _) (follows.identity next)).trans (skip_add more.2 next)

theorem le_past_frame {frame : FrameId} (absent : world.heap.size ≤ frame) :
    after'.heap.size ≤ (naming.past world'.extent after'.extent).frame frame := by
  obtain ⟨next, rfl⟩ := Nat.exists_eq_add_of_le absent
  rw [follows.past_frame_add more]
  exact Nat.le_add_right _ _

end Later

/-- **A world is still followed after something was done that left its frames as they are.** -/
theorem past {after' : World} (more : world'.extent ≤ after'.extent)
    (kept : ∀ frame < world.heap.size,
      after'.heap.frame? (naming.frame frame) = world'.heap.frame? (naming.frame frame)) :
    (naming.past world'.extent after'.extent).Follows world after' where
  ordinary := follows.ordinary
  frame := follows.past_frame_add more
  identity := follows.past_identity_add more
  bindings frame := by
    rcases Nat.lt_or_ge frame world.heap.size with there | absent
    · have renamed : (world.heap.bindings frame).rename (naming.past world'.extent after'.extent) =
          (world.heap.bindings frame).rename naming := by
        refine List.map_congr_left fun binding member => Prod.ext rfl ?_
        exact (follows.ordinary frame binding member).2.rename_congr
          (fun frame there => follows.past_frame there _)
          fun identity known => skip_of_lt (follows.lt_closures known)
      rw [follows.past_frame there, renamed, ← follows.bindings, Heap.bindings, kept frame there]
      rfl
    · have later := follows.le_past_frame more absent
      rw [Heap.bindings_of_absent absent, Heap.bindings_of_absent later]
      rfl
  outer? frame := by
    rcases Nat.lt_or_ge frame world.heap.size with there | absent
    · have outer := follows.outer? frame
      rw [follows.past_frame there, Heap.outer?, kept frame there]
      refine outer.trans ?_
      cases around : world.heap.outer? frame with
      | none => rfl
      | some outer =>
        have inside := (Heap.lt_of_outer? around).trans there
        exact congrArg some (follows.past_frame inside _).symm
    · have later := follows.le_past_frame more absent
      rw [Heap.outer?_of_absent absent, Heap.outer?_of_absent later]
      rfl

end Follows

end Renaming

end Lisp
