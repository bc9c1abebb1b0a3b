import Lisp.Proofs.Direct
import Lisp.Proofs.OtherOperations

/-!
# The loop of an evaluation

An evaluation is its first step, gone on with to the end of the step: nothing else happens in
it but that a step which runs out of room fails with an error (`evaluate_succ`).  Replacing
the failures of an action changes nothing else about it (`Action.mapFailure`), and it can be
done part by part (`Action.mapFailure_bind`).  So what matters for how an evaluation ends is
how its first step does (`ends_evaluate_iff`).
-/

set_option autoImplicit false

namespace Lisp

variable {α β : Type}

/-! ## Other failures -/

/-- The same end, but for the failure if it is one. -/
def Outcome.mapFailure (replace : Failure → Failure) : Outcome α → Outcome α
  | .failed failure after => .failed (replace failure) after
  | outcome => outcome

@[simp]
theorem Outcome.world?_mapFailure (replace : Failure → Failure) (outcome : Outcome α) :
    (outcome.mapFailure replace).world? = outcome.world? := by
  cases outcome <;> rfl

namespace Action

/-- The action that fails with other failures and is the same in all else. -/
def mapFailure (replace : Failure → Failure) (action : Action α) : Action α :=
  fun world => (action world).mapFailure replace

variable (replace : Failure → Failure)

@[simp]
theorem mapFailure_pure (value : α) :
    (Pure.pure value : Action α).mapFailure replace = Pure.pure value :=
  rfl

theorem mapFailure_mapFailure (replace' : Failure → Failure) (action : Action α) :
    (action.mapFailure replace).mapFailure replace' = action.mapFailure (replace' ∘ replace) := by
  funext world
  simp only [mapFailure]
  cases action world <;> rfl

/-- What is done in two parts has its failures replaced when both parts have. -/
theorem mapFailure_bind (action : Action α) (next : α → Action β) :
    (action >>= next).mapFailure replace =
      action.mapFailure replace >>= fun value => (next value).mapFailure replace := by
  funext world
  simp only [mapFailure, bind_apply]
  cases action world <;> rfl

end Action

section Endings

variable {actions : Nat → Action α} (stable : Stable actions) (replace : Failure → Failure)
include stable

theorem Stable.mapFailure : Stable fun fuel => (actions fuel).mapFailure replace := by
  intro fuel fuel' less world enough
  have same := stable fuel fuel' less world
  simp only [Action.mapFailure] at enough ⊢
  cases ended : actions fuel world with
  | outOfFuel => exact absurd (by rw [ended]; rfl) enough
  | finished value after => rw [same (by simp [ended]), ended]
  | failed failure after => rw [same (by simp [ended]), ended]

omit stable in
theorem ends_mapFailure_iff {world : World} {outcome : Outcome α} :
    Ends (fun fuel => (actions fuel).mapFailure replace) world outcome ↔
      ∃ inner, Ends actions world inner ∧ outcome = inner.mapFailure replace := by
  constructor
  · rintro ⟨some_way, fuel, rfl⟩
    refine ⟨actions fuel world, ⟨?_, fuel, rfl⟩, rfl⟩
    intro nothing
    exact some_way (congrArg (Outcome.mapFailure replace) nothing)
  · rintro ⟨inner, ⟨some_way, fuel, rfl⟩, rfl⟩
    cases ended : actions fuel world with
    | outOfFuel => exact absurd ended some_way
    | finished value after => exact .of_finished fuel (congrArg (Outcome.mapFailure replace) ended)
    | failed failure after => exact .of_failed fuel (congrArg (Outcome.mapFailure replace) ended)

end Endings

/-! ## Steps in a row -/

/-- The failure of an evaluation of which a step failed: running out of room is an error
then. -/
def Failure.ofStep : Failure → Failure
  | .fault .stackExhausted => .error .evaluationTooDeep
  | failure => failure

/-- **An evaluation goes on from its first step**, whatever native operations do. -/
theorem Operations.evaluate_succ (operations : Operations) (files : FileTree) (fuel : Nat)
    (room : Room) (form : Value) (frame : FrameId) :
    operations.evaluate files (fuel + 1) room form frame =
      (operations.step files (operations.evaluate files fuel) room form frame).mapFailure
          Failure.ofStep >>=
        Direct.follow (operations.evaluate files fuel room) := by
  funext world
  rw [Operations.evaluate, Action.bind_apply, Action.mapFailure]
  cases operations.step files (operations.evaluate files fuel) room form frame world with
  | outOfFuel => rfl
  | finished result after => cases result <;> rfl
  | failed failure after =>
    cases failure with
    | error error => rfl
    | fault fault => cases fault <;> rfl

theorem evaluate_succ (files : FileTree) (fuel : Nat) (room : Room) (form : Value)
    (frame : FrameId) :
    evaluate files (fuel + 1) room form frame =
      (step files (evaluate files fuel) room form frame).mapFailure Failure.ofStep >>=
        Direct.follow (evaluate files fuel room) := by
  have unfolded := Operations.evaluate_succ Builtin.call files fuel room form frame
  rwa [Operations.evaluate_call, Operations.step_call] at unfolded

theorem stable_step (files : FileTree) (room : Room) (form : Value) (frame : FrameId) :
    Stable fun fuel => step files (evaluate files fuel) room form frame := by
  intro fuel fuel' less
  exact step_refines (evaluate_refines files less) files room form frame

/-- **An evaluation ends as its first step does, or as the evaluation of the tail that the
first step comes to.** -/
theorem ends_evaluate_iff (files : FileTree) (room : Room) (form : Value) (frame : FrameId)
    (world : World) (outcome : Outcome Value) :
    Ends (fun fuel => evaluate files fuel room form frame) world outcome ↔
      (∃ failure after, Ends (fun fuel => step files (evaluate files fuel) room form frame) world
          (.failed failure after) ∧ outcome = .failed failure.ofStep after) ∨
      ∃ result between, Ends (fun fuel => step files (evaluate files fuel) room form frame) world
          (.finished result between) ∧
        Ends (fun fuel => Direct.follow (evaluate files fuel room) result) between outcome := by
  have stepped := stable_step files room form frame
  have followed : ∀ result, Stable fun fuel => Direct.follow (evaluate files fuel room) result := by
    intro result
    cases result with
    | done value => exact stable_const _
    | tail form frame => exact stable_evaluate files room form frame
  have unfolded : ∀ fuel, evaluate files (fuel + 1) room form frame world =
      ((step files (evaluate files (fuel + 0)) room form frame).mapFailure Failure.ofStep >>=
        Direct.follow (evaluate files (fuel + 0) room)) world := by
    intro fuel
    rw [evaluate_succ]
    rfl
  rw [ends_iff_of_shifted (stable_evaluate files room form frame)
    ((stepped.mapFailure Failure.ofStep).bind followed) unfolded,
    ends_bind_iff (stepped.mapFailure Failure.ofStep) followed]
  simp only [ends_mapFailure_iff]
  refine or_congr ?_ ?_
  · constructor
    · rintro ⟨failure, after, ⟨inner, ends, same⟩, rfl⟩
      cases inner <;> cases same
      exact ⟨_, after, ends, rfl⟩
    · rintro ⟨failure, after, ends, rfl⟩
      exact ⟨_, after, ⟨_, ends, rfl⟩, rfl⟩
  · constructor
    · rintro ⟨result, between, ⟨inner, ends, same⟩, ends'⟩
      cases inner <;> cases same
      exact ⟨result, between, ends, ends'⟩
    · rintro ⟨result, between, ends, ends'⟩
      exact ⟨result, between, ⟨_, ends, rfl⟩, ends'⟩

end Lisp
