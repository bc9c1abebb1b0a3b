import Lisp.Proofs.StepsRelated

/-!
# Fuel

More fuel never changes how an evaluation ends.  An action refines another when it
ends in the same way wherever the other ends at all; going on from refined actions
is refined, so each step of an evaluation is refined when the evaluator is
(`Evaluator.Refines.parts`), and by induction on the fuel so is the whole evaluation
(`evaluate_refines`).

So it makes sense to say how an evaluation ends without saying how much fuel it had
(`Ends`): it ends in one way at most (`Ends.unique`), and what is done in two parts
ends as the second part does from where the first one ended (`ends_bind_iff`).
-/

set_option autoImplicit false

namespace Lisp

/-! ## Actions that end as others do -/

namespace Action

variable {α β : Type}

/-- Whether an action ends as another does wherever that one comes to an end. -/
def Refines (short long : Action α) : Prop :=
  ∀ world, short world ≠ .outOfFuel → long world = short world

theorem Refines.refl (action : Action α) : Refines action action := by
  intro world _
  rfl

theorem Refines.trans {short long longer : Action α} (first : Refines short long)
    (second : Refines long longer) : Refines short longer := by
  intro world enough
  have same := first world enough
  rw [second world (by rw [same]; exact enough), same]

theorem Refines.bind {short long : Action α} {next next' : α → Action β}
    (first : Refines short long) (second : ∀ value, Refines (next value) (next' value)) :
    Refines (short >>= next) (long >>= next') := by
  intro world enough
  rw [bind_apply] at enough
  rw [bind_apply, bind_apply]
  cases ended : short world with
  | finished value after =>
    rw [first world (by simp [ended]), ended]
    exact second value after (by simpa [ended] using enough)
  | failed failure after => rw [first world (by simp [ended]), ended]
  | outOfFuel => exact absurd (by rw [ended]) enough

end Action

namespace Evaluator

variable {short long : Evaluator}

/-- Whether an evaluator ends as another does wherever that one comes to an end. -/
def Refines (short long : Evaluator) : Prop :=
  ∀ room form frame, Action.Refines (short room form frame) (long room form frame)

theorem Refines.nested (refines : Refines short long) (cost : Nat) (room : Room) (form : Value)
    (frame : FrameId) :
    Action.Refines (short.nested cost room form frame) (long.nested cost room form frame) := by
  unfold Evaluator.nested
  split
  · exact refines _ form frame
  · exact Action.Refines.refl _

/-- **Where one evaluator is refined by another, so is all that steps do with it.** -/
theorem Refines.parts (refines : Refines short long) (room : Room) :
    PartsRelated Action.Refines short long room room where
  bind := Action.Refines.bind
  pure _ := .refl _
  throw _ := .refl _
  lookup _ _ := .refl _
  define _ _ _ := .refl _
  newFrame _ := .refl _
  newClosure _ _ _ := .refl _
  nested := refines.nested Room.evaluation room
  throwShowing _ _ := .refl _
  render _ := .refl _

end Evaluator

/-! ## Application and steps -/

section Steps

variable {short long : Evaluator} (refines : Evaluator.Refines short long)
include refines

theorem Builtin.call_refines (operation : Builtin) (files : FileTree) (room : Room)
    (root : FrameId) (arguments : List Value) :
    Action.Refines (operation.call files short room root arguments)
      (operation.call files long room root arguments) := by
  cases operation with
  | evaluate =>
    simp only [Builtin.call, Builtin.evaluateIn]
    split
    · exact refines.nested _ room _ root
    · exact .refl _
  | _ => exact .refl _

theorem apply_refines (files : FileTree) (room : Room) (head : Value) (arguments : List Value) :
    Action.Refines (apply files short room head arguments)
      (apply files long room head arguments) :=
  (refines.parts room).apply_call
    (fun operation => Builtin.call_refines refines operation files room) head arguments

/-- **A step is refined when the evaluator of its inner forms is.** -/
theorem step_refines (files : FileTree) (room : Room) (form : Value) (frame : FrameId) :
    Action.Refines (step files short room form frame) (step files long room form frame) :=
  (refines.parts room).step_call
    (fun operation => Builtin.call_refines refines operation files room) form frame

end Steps

/-! ## Evaluation -/

theorem evaluate_refines_succ (files : FileTree) (fuel : Nat) :
    Evaluator.Refines (evaluate files fuel) (evaluate files (fuel + 1)) := by
  induction fuel with
  | zero =>
    intro room form frame world enough
    exact absurd rfl enough
  | succ fuel ih =>
    intro room form frame world enough
    have same := step_refines ih files room form frame world
    rw [evaluate] at enough
    rw [evaluate, evaluate]
    cases ended : step files (evaluate files fuel) room form frame world with
    | outOfFuel => simp [ended] at enough
    | failed failure after =>
      rw [same (by simp [ended]), ended]
      cases failure with
      | error error => rfl
      | fault fault => cases fault <;> rfl
    | finished result after =>
      rw [same (by simp [ended]), ended]
      cases result with
      | done value => rfl
      | tail form frame => exact ih room form frame after (by simpa [ended] using enough)

/-- **More fuel does not change how an evaluation ends.** -/
theorem evaluate_refines (files : FileTree) {fuel fuel' : Nat} (less : fuel ≤ fuel') :
    Evaluator.Refines (evaluate files fuel) (evaluate files fuel') := by
  induction less with
  | refl =>
    intro room form frame
    exact Action.Refines.refl _
  | step _ ih =>
    intro room form frame
    exact (ih room form frame).trans (evaluate_refines_succ files _ room form frame)

/-! ## How evaluations end -/

section Endings

variable {α β : Type}

/-- Whether actions that are given more and more fuel end in some way. -/
def Ends (actions : Nat → Action α) (world : World) (outcome : Outcome α) : Prop :=
  outcome ≠ .outOfFuel ∧ ∃ fuel, actions fuel world = outcome

theorem Ends.of_finished {actions : Nat → Action α} (fuel : Nat) {world after : World} {value : α}
    (ended : actions fuel world = .finished value after) :
    Ends actions world (.finished value after) :=
  ⟨by simp, fuel, ended⟩

theorem Ends.of_failed {actions : Nat → Action α} (fuel : Nat) {world after : World}
    {failure : Failure} (ended : actions fuel world = .failed failure after) :
    Ends actions world (.failed failure after) :=
  ⟨by simp, fuel, ended⟩

/-- Whether more fuel never changes how the actions end. -/
def Stable (actions : Nat → Action α) : Prop :=
  ∀ fuel fuel', fuel ≤ fuel' → Action.Refines (actions fuel) (actions fuel')

theorem stable_const (action : Action α) : Stable fun _ => action := by
  intro fuel fuel' _
  exact Action.Refines.refl action

theorem Stable.bind {first : Nat → Action α} {second : Nat → α → Action β} (stable : Stable first)
    (stable' : ∀ value, Stable fun fuel => second fuel value) :
    Stable fun fuel => first fuel >>= second fuel := by
  intro fuel fuel' less
  exact (stable fuel fuel' less).bind fun value => stable' value fuel fuel' less

theorem stable_evaluate (files : FileTree) (room : Room) (form : Value) (frame : FrameId) :
    Stable fun fuel => evaluate files fuel room form frame := by
  intro fuel fuel' less
  exact evaluate_refines files less room form frame

/-- With enough fuel, and any more, the actions end as they do. -/
theorem Ends.eventually {actions : Nat → Action α} (stable : Stable actions) {world : World}
    {outcome : Outcome α} (ends : Ends actions world outcome) :
    ∃ enough, ∀ fuel, enough ≤ fuel → actions fuel world = outcome := by
  obtain ⟨some_way, enough, ended⟩ := ends
  refine ⟨enough, fun fuel more => ?_⟩
  rw [stable enough fuel more world (by rw [ended]; exact some_way), ended]

/-- **Actions end in one way at most.** -/
theorem Ends.unique {actions : Nat → Action α} (stable : Stable actions) {world : World}
    {outcome outcome' : Outcome α} (ends : Ends actions world outcome)
    (ends' : Ends actions world outcome') : outcome = outcome' := by
  obtain ⟨enough, ended⟩ := ends.eventually stable
  obtain ⟨enough', ended'⟩ := ends'.eventually stable
  rw [← ended (max enough enough') (Nat.le_max_left _ _),
    ended' (max enough enough') (Nat.le_max_right _ _)]

/-- Actions that do the same, each given some more fuel, end alike. -/
theorem ends_iff_of_shifted {actions actions' : Nat → Action α} (stable : Stable actions)
    (stable' : Stable actions') {more more' : Nat} {world world' : World}
    (same : ∀ fuel, actions (fuel + more) world = actions' (fuel + more') world')
    {outcome : Outcome α} : Ends actions world outcome ↔ Ends actions' world' outcome := by
  constructor
  · intro ends
    obtain ⟨enough, ended⟩ := ends.eventually stable
    exact ⟨ends.1, enough + more', by rw [← same, ended _ (Nat.le_add_right enough more)]⟩
  · intro ends
    obtain ⟨enough, ended⟩ := ends.eventually stable'
    exact ⟨ends.1, enough + more, by rw [same, ended _ (Nat.le_add_right enough more')]⟩

theorem ends_const_iff {action : Action α} {world : World} {outcome : Outcome α} :
    Ends (fun _ => action) world outcome ↔ outcome ≠ .outOfFuel ∧ action world = outcome := by
  simp [Ends]

/-- **What is done in two parts ends with a failure of the first, or as the second does
from where the first one finished.** -/
theorem ends_bind_iff {first : Nat → Action α} {second : Nat → α → Action β}
    (stable : Stable first) (stable' : ∀ value, Stable fun fuel => second fuel value)
    {world : World} {outcome : Outcome β} :
    Ends (fun fuel => first fuel >>= second fuel) world outcome ↔
      (∃ failure after, Ends first world (.failed failure after) ∧
        outcome = .failed failure after) ∨
      ∃ value between, Ends first world (.finished value between) ∧
        Ends (fun fuel => second fuel value) between outcome := by
  constructor
  · rintro ⟨some_way, fuel, ended⟩
    dsimp only at ended
    rw [Action.bind_apply] at ended
    cases first_ended : first fuel world with
    | outOfFuel => exact absurd (by rw [← ended, first_ended]) some_way
    | failed failure after =>
      rw [first_ended] at ended
      exact .inl ⟨failure, after, .of_failed fuel first_ended, ended.symm⟩
    | finished value between =>
      rw [first_ended] at ended
      exact .inr ⟨value, between, .of_finished fuel first_ended, some_way, fuel, ended⟩
  · rintro (⟨failure, after, ⟨_, fuel, ended⟩, rfl⟩ | ⟨value, between, ends, ends'⟩)
    · refine .of_failed fuel ?_
      rw [Action.bind_apply, ended]
    · obtain ⟨enough, ended⟩ := ends.eventually stable
      obtain ⟨enough', ended'⟩ := ends'.eventually (stable' value)
      refine ⟨ends'.1, max enough enough', ?_⟩
      dsimp only
      rw [Action.bind_apply, ended _ (Nat.le_max_left _ _)]
      exact ended' _ (Nat.le_max_right _ _)

/-- What is done after a first part with its value alone ends with the first part. -/
theorem ends_bind_pure_iff {first : Nat → Action α} {result : α → β} (stable : Stable first)
    {world : World} {outcome : Outcome β} :
    Ends (fun fuel => first fuel >>= fun value => pure (result value)) world outcome ↔
      (∃ failure after, Ends first world (.failed failure after) ∧
        outcome = .failed failure after) ∨
      ∃ value after, Ends first world (.finished value after) ∧
        outcome = .finished (result value) after := by
  have parts := @ends_bind_iff α β first (fun _ value => pure (result value)) stable
    (fun value => stable_const _) world outcome
  rw [parts]
  simp only [ends_const_iff, Action.pure_apply]
  refine or_congr_right (exists_congr fun value => exists_congr fun after => and_congr_right ?_)
  intro _
  constructor
  · rintro ⟨_, rfl⟩
    rfl
  · rintro rfl
    exact ⟨nofun, rfl⟩

end Endings

end Lisp
