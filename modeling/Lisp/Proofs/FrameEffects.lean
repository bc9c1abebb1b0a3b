import Lisp.Proofs.Definitions
import Lisp.Proofs.Invariants

/-!
# Which frames a run can change

An evaluation defines names in the frame it evaluates in, in frames that it makes, and
in the roots that the `eval` operations at hand were registered for.  Every other frame
that was there before is left as it was, no frame's outer frame ever changes, and where
names are defined the earlier names keep their places (`Preserves`).

This is an invariant of runs (`frameEffects`): the frames that a run evaluates forms in
are its own, the roots and the new ones, and closures only lend their frames to new
frames inside.  A `let*` evaluates nothing in the frame that it stands in.

An interpreter has one root, and its `eval` is registered for it.  So over any session
every other frame is frozen from the end of the step in which it was made.
-/

set_option autoImplicit false

namespace Lisp

/-! ## The roots at hand -/

namespace Value

mutual

/-- The roots that the `eval` operations in a value were registered for. -/
def evaluationRoots : Value → List FrameId
  | .list items => evaluationRootsOfItems items
  | .closure _ _ body _ => evaluationRoots body
  | .native .evaluate root => [root]
  | _ => []

/-- The roots that the `eval` operations in the items of a list were registered for. -/
def evaluationRootsOfItems : List Value → List FrameId
  | [] => []
  | item :: rest => evaluationRoots item ++ evaluationRootsOfItems rest

end

theorem mem_evaluationRoots_list {root : FrameId} {items : List Value} :
    root ∈ (Value.list items).evaluationRoots ↔ ∃ item ∈ items, root ∈ item.evaluationRoots := by
  rw [evaluationRoots]
  induction items with
  | nil => simp [evaluationRootsOfItems]
  | cons item rest ih => simp [evaluationRootsOfItems, ih]

theorem evaluationRoots_of_isPlain {value : Value} (plain : value.IsPlain) :
    value.evaluationRoots = [] := by
  cases value with
  | list items => exact plain.elim
  | closure identity parameters body frame => exact plain.elim
  | native operation root => exact plain.elim
  | _ => simp only [evaluationRoots]

end Value

/-- Whether a frame is a root that an `eval` operation in some binding was registered for. -/
def Heap.IsEvaluationRoot (heap : Heap) (root : FrameId) : Prop :=
  ∃ frame, ∃ binding ∈ heap.bindings frame, root ∈ binding.2.evaluationRoots

/-- A definition keeps the names that were there in front. -/
theorem Bindings.names_prefix_define (bindings : Bindings) (name : String) (value : Value) :
    bindings.map Prod.fst <+: (bindings.define name value).map Prod.fst := by
  rw [map_fst_define]
  split
  · exact List.prefix_rfl
  · exact List.prefix_append _ _

/-! ## What is left as it was -/

/-- What a run leaves of the frames that were there before it, when it may define names
in the changeable ones among them. -/
structure Preserves (changeable : FrameId → Prop) (before after : Heap) : Prop where
  size_le : before.size ≤ after.size
  frame?_eq : ∀ place < before.size, ¬ changeable place → after.frame? place = before.frame? place
  outer?_eq : ∀ place < before.size, after.outer? place = before.outer? place
  names_prefix : ∀ place < before.size,
    (before.bindings place).map Prod.fst <+: (after.bindings place).map Prod.fst

namespace Preserves

variable {changeable : FrameId → Prop} {before after : Heap}

theorem refl (changeable : FrameId → Prop) (heap : Heap) : Preserves changeable heap heap where
  size_le := Nat.le_refl _
  frame?_eq _ _ _ := rfl
  outer?_eq _ _ := rfl
  names_prefix _ _ := List.prefix_rfl

theorem trans {last : Heap} (first : Preserves changeable before after)
    (second : Preserves changeable after last) : Preserves changeable before last where
  size_le := Nat.le_trans first.size_le second.size_le
  frame?_eq place old other := by
    have there := Nat.lt_of_lt_of_le old first.size_le
    rw [second.frame?_eq place there other, first.frame?_eq place old other]
  outer?_eq place old := by
    have there := Nat.lt_of_lt_of_le old first.size_le
    rw [second.outer?_eq place there, first.outer?_eq place old]
  names_prefix place old := by
    have there := Nat.lt_of_lt_of_le old first.size_le
    exact (first.names_prefix place old).trans (second.names_prefix place there)

/-- Frames that were not there before do not matter. -/
theorem mono {changeable' : FrameId → Prop} (preserves : Preserves changeable before after)
    (wider : ∀ place < before.size, changeable place → changeable' place) :
    Preserves changeable' before after where
  size_le := preserves.size_le
  frame?_eq place old other :=
    preserves.frame?_eq place old fun changes => other (wider place old changes)
  outer?_eq := preserves.outer?_eq
  names_prefix := preserves.names_prefix

theorem define {frame : FrameId} (changes : changeable frame) (heap : Heap) (name : String)
    (value : Value) : Preserves changeable heap (heap.define frame name value) where
  size_le := by simp
  frame?_eq place _ other := by
    refine heap.frame?_define_of_ne ?_ name value
    rintro rfl
    exact other changes
  outer?_eq place _ := by simp
  names_prefix place old := by
    by_cases same : place = frame
    · subst same
      rw [Heap.bindings_define heap place place name value old, if_pos rfl]
      exact Bindings.names_prefix_define _ name value
    · exact heap.bindings_define_of_ne same name value ▸ List.prefix_rfl

theorem push (changeable : FrameId → Prop) (heap : Heap) (outer? : Option FrameId) :
    Preserves changeable heap (heap.push outer?) := by
  have same : ∀ place < heap.size, (heap.push outer?).frame? place = heap.frame? place := by
    intro place old
    rw [Heap.frame?_push, if_neg (Nat.ne_of_lt old)]
  exact {
    size_le := by simp
    frame?_eq := fun place old _ => same place old
    outer?_eq := fun place old => by rw [Heap.outer?, Heap.outer?, same place old]
    names_prefix := fun place old => by
      have unchanged : (heap.push outer?).bindings place = heap.bindings place := by
        rw [Heap.bindings, Heap.bindings, same place old]
      exact unchanged ▸ List.prefix_rfl }

end Preserves

/-! ## Which evaluation roots there are -/

/-- All evaluation roots are among some frames if they are in all values that are bound. -/
theorem Heap.forall_isEvaluationRoot_iff {heap : Heap} {roots : FrameId → Prop} :
    (∀ root, heap.IsEvaluationRoot root → roots root) ↔
      heap.Each fun value => ∀ root ∈ value.evaluationRoots, roots root := by
  constructor
  · intro known frame binding member root inside
    exact known root ⟨frame, binding, member, inside⟩
  · rintro each root ⟨frame, binding, member, inside⟩
    exact each frame binding member root inside

/-! ## The invariant -/

/-- The frames that were there before a run are left as they were, apart from its own and
the roots, and so are all frames' places; forms are evaluated only in those frames and in
new ones. -/
def frameEffects (own roots : FrameId → Prop) (before : Heap) : Invariant Unit where
  world _ world := Preserves (fun place => own place ∨ roots place) before world.heap ∧
    ∀ root, world.heap.IsEvaluationRoot root → roots root
  value _ value := ∀ root ∈ value.evaluationRoots, roots root
  frame place := (own place ∨ roots place) ∨ before.size ≤ place
  value_mono _ := id
  plain _ item plain := by simp [Value.evaluationRoots_of_isPlain plain]
  list_iff _ items := by
    simp only [Value.mem_evaluationRoots_list]
    constructor
    · intro inside item member root inItem
      exact inside root ⟨item, member, inItem⟩
    · rintro inside root ⟨item, member, inItem⟩
      exact inside item member root inItem
  body inside root member := inside root (by rwa [Value.evaluationRoots])
  root inside := .inl (.inr (inside _ (by simp [Value.evaluationRoots])))
  lookup holds found := (Heap.forall_isEvaluationRoot_iff.1 holds.2).lookup? found
  define := by
    rintro _ world place item name ⟨preserves, known⟩ inside good
    have wider := preserves.mono fun place _ changes => Or.inl (b := before.size ≤ place) changes
    have defined := wider.trans (Preserves.define inside world.heap name item)
    refine ⟨defined.mono fun place old changes => ?_, ?_⟩
    · exact changes.resolve_right (Nat.not_le_of_lt old)
    · exact Heap.forall_isEvaluationRoot_iff.2 ((Heap.forall_isEvaluationRoot_iff.1 known).define good)
  newFrame := by
    rintro _ world outer? ⟨preserves, known⟩
    refine ⟨.inr preserves.size_le, preserves.trans (Preserves.push _ world.heap outer?), ?_⟩
    exact Heap.forall_isEvaluationRoot_iff.2 (Heap.forall_isEvaluationRoot_iff.1 known).push
  newClosure _ _ holds good := ⟨(), le_refl (), by rwa [Value.evaluationRoots], holds⟩
  write _ holds := holds

/-! ## Evaluation -/

theorem frameEffects_start (own roots : FrameId → Prop) {world : World}
    (known : ∀ root, world.heap.IsEvaluationRoot root → roots root) :
    (frameEffects own roots world.heap).world () world :=
  ⟨Preserves.refl _ world.heap, known⟩

section Evaluation

variable {roots : FrameId → Prop} {form : Value} {world after : World}
variable (files : FileTree) (fuel : Nat) (room : Room) (frame : FrameId)
variable (good : ∀ root ∈ form.evaluationRoots, roots root)
variable (known : ∀ root, world.heap.IsEvaluationRoot root → roots root)
include good known

/-- **An evaluation changes its own frame, the roots, and no other frame that was there.** -/
theorem frameEffects_evaluate
    (left : (evaluate files fuel room form frame world).world? = some after) :
    (frameEffects (· = frame) roots world.heap).world () after := by
  have inside : (frameEffects (· = frame) roots world.heap).frame frame := .inl (.inl rfl)
  have keeps := (frameEffects (· = frame) roots world.heap).keeps_evaluate files fuel () room form
    frame good inside
  obtain ⟨_, _, kept⟩ := keeps.of_world? (frameEffects_start _ roots known) left
  exact kept

/-- **A `let*` changes the roots and no other frame that was there, not even its own.** -/
theorem frameEffects_evaluate_bind {operands : List Value}
    (isBind : form = .list (.symbol SpecialForm.bind.name :: operands))
    (left : (evaluate files fuel room form frame world).world? = some after) :
    (frameEffects (fun _ => False) roots world.heap).world () after := by
  subst isBind
  cases fuel with
  | zero => cases left
  | succ fuel =>
    have evaluates := (frameEffects (fun _ => False) roots world.heap).keeps_evaluate files fuel
    have each := ((frameEffects (fun _ => False) roots world.heap).list_iff () _).1 good
    have first : Action.Keeps _ room _ ()
        (SpecialForm.performBind (evaluate files fuel) room frame operands) :=
      Invariant.keeps_performBind evaluates (List.forall_mem_cons.1 each).2
    have keeps : Action.Keeps _ room _ () (evaluate files (fuel + 1) room
        (.list (.symbol SpecialForm.bind.name :: operands)) frame) :=
      Invariant.keeps_evaluate_succ evaluates first
    obtain ⟨_, _, kept⟩ := keeps.of_world? (frameEffects_start _ roots known) left
    exact kept

end Evaluation

end Lisp
