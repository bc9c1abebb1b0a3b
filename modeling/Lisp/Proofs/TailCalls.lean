import Lisp.Proofs.Calls
import Lisp.Proofs.DepthLimit

/-!
# Tails take no room

A step that comes to a tail has the tail take the place of the form at hand: the evaluation
goes on at the same depth.  So however many steps follow each other, an evaluation fits into
a room when each of its steps does (`Task.fits_iff`).

A form that stands in a tail position of another, be it a branch, a last form, the body of a
`let*` or the body of a closure that is called, is reached when the forms before it have been
evaluated (`Layer`).  Layers may lie around each other to any depth, and a closure may be
reached from its own body (`Nesting`); all that they need is room for those forms, each where
it stands.
-/

set_option autoImplicit false

namespace Lisp

/-- A form to be evaluated, with the frame and the world to evaluate it in. -/
structure Task where
  form : Value
  frame : FrameId
  world : World

variable (files : FileTree)

namespace Task

/-! ## Ends of tasks -/

section Ends

variable (room : Room) (task : Task)

/-- How the evaluation of a task ends in a room. -/
def EndsIn (outcome : Outcome Value) : Prop :=
  Ends (fun fuel => evaluate files fuel room task.form task.frame) task.world outcome

/-- How the first step of a task ends in a room. -/
def StepEndsIn (outcome : Outcome Step) : Prop :=
  Ends (fun fuel => step files (evaluate files fuel) room task.form task.frame) task.world outcome

/-- How a task ends that is evaluated inside a step, one level deeper. -/
def InnerEndsIn (outcome : Outcome Value) : Prop :=
  Ends
    (fun fuel =>
      Evaluator.nested (evaluate files fuel) Room.evaluation room task.form task.frame)
    task.world outcome

/-- Whether the evaluation of a task never fails for want of room. -/
def Fits : Prop :=
  NeverTooDeep (fun fuel => evaluate files fuel room task.form task.frame) task.world

/-- Whether the first step of a task, taken alone, never fails for want of room. -/
def StepFits : Prop :=
  NeverTooDeep (fun fuel => step files (evaluate files fuel) room task.form task.frame) task.world

/-- Whether a task that is evaluated inside a step never fails for want of room. -/
def InnerFits : Prop :=
  NeverTooDeep
    (fun fuel =>
      Evaluator.nested (evaluate files fuel) Room.evaluation room task.form task.frame)
    task.world

end Ends

variable {files}

/-- A task goes on as its tail does. -/
theorem StepEndsIn.endsIn_iff {room : Room} {task : Task} {form : Value} {frame : FrameId}
    {between : World} (tail : task.StepEndsIn files room (.finished (.tail form frame) between))
    {outcome : Outcome Value} :
    task.EndsIn files room outcome ↔ EndsIn files room ⟨form, frame, between⟩ outcome := by
  have stable := stable_step files room task.form task.frame
  unfold EndsIn
  rw [ends_evaluate_iff]
  constructor
  · rintro (⟨failure, after, fails, _⟩ | ⟨result, middle, finishes, ends⟩)
    · cases fails.unique stable tail
    · cases finishes.unique stable tail
      exact ends
  · intro ends
    exact .inr ⟨_, between, tail, ends⟩

/-- A task fails when its first step does. -/
theorem StepEndsIn.endsIn_of_fails {room : Room} {task : Task} {failure : Failure} {after : World}
    (fails : task.StepEndsIn files room (.failed failure after)) :
    task.EndsIn files room (.failed failure.ofStep after) :=
  (ends_evaluate_iff ..).2 (.inl ⟨failure, after, fails, rfl⟩)

/-- What fits into less room fits into more. -/
theorem Fits.mono {small large : Room} (atMost : small.AtMost large) {task : Task}
    (fits : task.Fits files small) : task.Fits files large :=
  fits.with_more_room fun fuel =>
    evaluate_cutShort files fuel small large atMost task.form task.frame

theorem InnerFits.mono {small large : Room} (atMost : small.AtMost large) {task : Task}
    (fits : task.InnerFits files small) : task.InnerFits files large :=
  fits.with_more_room fun fuel =>
    Evaluator.nested_cutShort (evaluate_cutShort files fuel) atMost _ task.form task.frame

end Task

/-! ## Runs of steps -/

/-- The tasks that a task comes to by so many steps in a row, each at the same depth. -/
inductive Run (room : Room) : Task → Nat → Task → Prop where
  | start (task : Task) : Run room task 0 task
  | further {task last : Task} {form : Value} {frame : FrameId} {between : World} {count : Nat} :
      task.StepEndsIn files room (.finished (.tail form frame) between) →
        Run room ⟨form, frame, between⟩ count last → Run room task (count + 1) last

namespace Run

variable {files} {room : Room} {task last : Task} {count : Nat}

/-- **A task ends as any task does that it comes to.** -/
theorem endsIn_iff (run : Run files room task count last) {outcome : Outcome Value} :
    task.EndsIn files room outcome ↔ last.EndsIn files room outcome := by
  induction run with
  | start task => rfl
  | further tail _ ih => exact tail.endsIn_iff.trans ih

/-- A task that ends comes to a last one, whose first step ends it. -/
theorem exists_last {outcome : Outcome Value} (ends : task.EndsIn files room outcome) :
    ∃ count last, Run files room task count last ∧
      ((∃ failure after, last.StepEndsIn files room (.failed failure after) ∧
          outcome = .failed failure.ofStep after) ∨
        ∃ value after, last.StepEndsIn files room (.finished (.done value) after) ∧
          outcome = .finished value after) := by
  obtain ⟨some_way, fuel, ended⟩ := ends
  -- The fuel counts the steps that are left.
  induction fuel generalizing task with
  | zero => exact absurd ended.symm some_way
  | succ fuel ih =>
    dsimp only at ended
    rw [evaluate_succ, Action.bind_apply, Action.mapFailure] at ended
    cases stepped : step files (evaluate files fuel) room task.form task.frame task.world with
    | outOfFuel =>
      rw [stepped] at ended
      exact absurd ended.symm some_way
    | failed failure after =>
      rw [stepped] at ended
      exact ⟨0, task, .start task, .inl ⟨failure, after, .of_failed fuel stepped, ended.symm⟩⟩
    | finished result between =>
      rw [stepped] at ended
      have ends : task.StepEndsIn files room (.finished result between) :=
        .of_finished fuel stepped
      cases result with
      | done value => exact ⟨0, task, .start task, .inr ⟨value, between, ends, ended.symm⟩⟩
      | tail form frame =>
        obtain ⟨count, last, run, last_step⟩ := @ih ⟨form, frame, between⟩ ended
        exact ⟨count + 1, last, .further ends run, last_step⟩

end Run

/-- **A task fits into a room if and only if each step does that it comes to.** -/
theorem Task.fits_iff (room : Room) (task : Task) :
    task.Fits files room ↔
      ∀ count last, Run files room task count last → last.StepFits files room := by
  constructor
  · rintro fits count last run _ ends ⟨failure, after, rfl, tooDeep⟩
    refine fits _ (run.endsIn_iff.2 (Task.StepEndsIn.endsIn_of_fails ends)) ⟨_, after, rfl, ?_⟩
    exact failure.isTooDeep_ofStep.2 tooDeep
  · rintro each outcome ends ⟨failure, after, rfl, tooDeep⟩
    obtain ⟨count, last, run, ⟨failure', after', fails, same⟩ | ⟨value, _, _, same⟩⟩ :=
      Run.exists_last ends
    · cases same
      exact each count last run _ fails ⟨failure', after, rfl, failure'.isTooDeep_ofStep.1 tooDeep⟩
    · cases same

/-! ## Forms before a tail -/

/-- Forms that are evaluated inside a step, one after the other, to values. -/
inductive InTurn (room : Room) (frame : FrameId) :
    World → List Value → List Value → List Task → World → Prop where
  | none (world : World) : InTurn room frame world [] [] [] world
  | next {world between after : World} {form value : Value} {forms values : List Value}
      {parts : List Task} :
      Task.InnerEndsIn files room ⟨form, frame, world⟩ (.finished value between) →
        InTurn room frame between forms values parts after →
          InTurn room frame world (form :: forms) (value :: values)
            (⟨form, frame, world⟩ :: parts) after

/-- Bindings whose forms are evaluated inside a step, one after the other, each name being
defined before the next form. -/
inductive BoundInTurn (room : Room) (frame : FrameId) :
    World → List Value → List Task → World → Prop where
  | none (world : World) : BoundInTurn room frame world [] [] world
  | next {world between after : World} {name : String} {form value : Value}
      {bindings : List Value} {parts : List Task} :
      Task.InnerEndsIn files room ⟨form, frame, world⟩ (.finished value between) →
        BoundInTurn room frame { between with heap := between.heap.define frame name value }
          bindings parts after →
            BoundInTurn room frame world (.symbol name :: form :: bindings)
              (⟨form, frame, world⟩ :: parts) after

/-- One task around another, which it comes to in one step: the form of the inner one is a
tail of the outer one's.  Between them stand the other parts of that form which the step
evaluates. -/
inductive Layer (room : Room) : Task → List Task → Task → Prop where
  | whenTrue {condition whenTrue value : Value} {others : List Value} {frame : FrameId}
      {world after : World} :
      Task.InnerEndsIn files room ⟨condition, frame, world⟩ (.finished value after) →
        value.isTruthy = true → others.length ≤ 1 →
          Layer room ⟨.list (.symbol "if" :: condition :: whenTrue :: others), frame, world⟩
            [⟨condition, frame, world⟩] ⟨whenTrue, frame, after⟩
  | whenFalse {condition whenTrue whenFalse value : Value} {frame : FrameId} {world after : World} :
      Task.InnerEndsIn files room ⟨condition, frame, world⟩ (.finished value after) →
        value.isTruthy = false →
          Layer room ⟨.list [.symbol "if", condition, whenTrue, whenFalse], frame, world⟩
            [⟨condition, frame, world⟩] ⟨whenFalse, frame, after⟩
  | last {forms values : List Value} {last : Value} {frame : FrameId} {world after : World}
      {parts : List Task} :
      InTurn files room frame world forms values parts after →
        Layer room ⟨.list (.symbol "do" :: (forms ++ [last])), frame, world⟩ parts
          ⟨last, frame, after⟩
  | body {bindings : List Value} {body : Value} {frame : FrameId} {world after : World}
      {parts : List Task} :
      BoundInTurn files room world.heap.size
          { world with heap := world.heap.push (some frame) } bindings parts after →
        Layer room ⟨.list [.symbol "let*", .list bindings, body], frame, world⟩ parts
          ⟨body, world.heap.size, after⟩
  | call {head : Value} {operands arguments : List Value} {identity : Nat}
      {parameters : List String} {body : Value} {outer frame inner : FrameId}
      {world between after : World} {parts : List Task} :
      specialForm? head = none →
        InTurn files room frame world (head :: operands)
          (.closure identity parameters body outer :: arguments) parts between →
            applyClosure parameters body outer arguments between =
                .finished (.tail body inner) after →
              Layer room ⟨.list (head :: operands), frame, world⟩ parts ⟨body, inner, after⟩

/-- Layers around each other, to any depth, with all the parts between the outermost task and
the innermost. -/
inductive Nesting (room : Room) : Task → List Task → Task → Prop where
  | hole (task : Task) : Nesting room task [] task
  | layer {outer inner hole : Task} {parts further : List Task} :
      Layer files room outer parts inner → Nesting room inner further hole →
        Nesting room outer (parts ++ further) hole

variable {files} {room : Room}

/-! ## Less room -/

/-- A part that fits into a room ends there as it does in unlimited room. -/
theorem Task.InnerEndsIn.of_fits {task : Task} {outcome : Outcome Value}
    (ends : task.InnerEndsIn files .unlimited outcome) (fits : task.InnerFits files room) :
    task.InnerEndsIn files room outcome := by
  refine ends.with_less_room (fun fuel => ?_) fits
  have atMost : room.AtMost .unlimited := by
    cases room <;> trivial
  exact Evaluator.nested_cutShort (evaluate_cutShort files fuel) atMost _ task.form task.frame

theorem InTurn.of_fits {frame : FrameId} {world after : World} {forms values : List Value}
    {parts : List Task} (evaluated : InTurn files .unlimited frame world forms values parts after)
    (fit : ∀ part ∈ parts, part.InnerFits files room) :
    InTurn files room frame world forms values parts after := by
  induction evaluated with
  | none world => exact .none world
  | next ends _ ih =>
    obtain ⟨fits, others⟩ := List.forall_mem_cons.1 fit
    exact .next (ends.of_fits fits) (ih others)

theorem BoundInTurn.of_fits {frame : FrameId} {world after : World} {bindings : List Value}
    {parts : List Task} (bound : BoundInTurn files .unlimited frame world bindings parts after)
    (fit : ∀ part ∈ parts, part.InnerFits files room) :
    BoundInTurn files room frame world bindings parts after := by
  induction bound with
  | none world => exact .none world
  | next ends _ ih =>
    obtain ⟨fits, others⟩ := List.forall_mem_cons.1 fit
    exact .next (ends.of_fits fits) (ih others)

/-- Where its parts fit, a layer is what it is in unlimited room. -/
theorem Layer.of_fits {outer inner : Task} {parts : List Task}
    (layer : Layer files .unlimited outer parts inner)
    (fit : ∀ part ∈ parts, part.InnerFits files room) : Layer files room outer parts inner := by
  cases layer with
  | whenTrue ends truthy few => exact .whenTrue (ends.of_fits (fit _ (.head _))) truthy few
  | whenFalse ends falsy => exact .whenFalse (ends.of_fits (fit _ (.head _))) falsy
  | last evaluated => exact .last (evaluated.of_fits fit)
  | body bound => exact .body (bound.of_fits fit)
  | call ordinary evaluated applied => exact .call ordinary (evaluated.of_fits fit) applied

/-! ## Layers as steps -/

section Steps

variable (room : Room) (frame : FrameId)

theorem stable_nested (cost : Nat) (form : Value) :
    Stable fun fuel => Evaluator.nested (evaluate files fuel) cost room form frame := by
  intro fuel fuel' less
  exact Evaluator.Refines.nested (evaluate_refines files less) cost room form frame

theorem stable_allOnto (values forms : List Value) :
    Stable fun fuel => Evaluator.allOnto (evaluate files fuel) room frame values forms := by
  intro fuel fuel' less
  exact (Evaluator.Refines.parts (evaluate_refines files less) room).allOnto frame values forms

theorem stable_bindPairs (bindings : List Value) :
    Stable fun fuel => SpecialForm.bindPairs (evaluate files fuel) room frame bindings := by
  intro fuel fuel' less
  exact (Evaluator.Refines.parts (evaluate_refines files less) room).bindPairs frame bindings

theorem stable_performSequence (operands : List Value) :
    Stable fun fuel => SpecialForm.performSequence (evaluate files fuel) room frame operands := by
  intro fuel fuel' less
  exact (Evaluator.Refines.parts (evaluate_refines files less) room).performSequence frame operands

theorem stable_apply (head : Value) (arguments : List Value) :
    Stable fun fuel => apply files (evaluate files fuel) room head arguments := by
  intro fuel fuel' less
  exact apply_refines (evaluate_refines files less) files room head arguments

end Steps

theorem Ends.const {α : Type} {action : Action α} {world after : World} {value : α}
    (finishes : action world = .finished value after) :
    Ends (fun _ => action) world (.finished value after) :=
  .of_finished 0 finishes

/-- What is done with the value of a first part ends as that goes on. -/
theorem Ends.bind_finished {α β : Type} {first : Nat → Action α} {second : Nat → α → Action β}
    (stable : Stable first) (stable' : ∀ value, Stable fun fuel => second fuel value)
    {world between : World} {value : α} {outcome : Outcome β}
    (finishes : Ends first world (.finished value between))
    (goes_on : Ends (fun fuel => second fuel value) between outcome) :
    Ends (fun fuel => first fuel >>= second fuel) world outcome :=
  (ends_bind_iff stable stable').2 (.inr ⟨value, between, finishes, goes_on⟩)

namespace InTurn

variable {frame : FrameId} {world after : World} {forms values : List Value} {parts : List Task}

theorem ends_allOnto (evaluated : InTurn files room frame world forms values parts after)
    (before : List Value) :
    Ends (fun fuel => Evaluator.allOnto (evaluate files fuel) room frame before forms) world
      (.finished (before.reverse ++ values) after) := by
  induction evaluated generalizing before with
  | none world =>
    rw [List.append_nil]
    exact .const rfl
  | @next _ _ _ form value forms values _ ends _ ih =>
    have others := ih (value :: before)
    rw [List.reverse_cons, List.append_assoc] at others
    exact .bind_finished (stable_nested room frame _ form)
      (fun value => stable_allOnto room frame (value :: before) forms) ends others

/-- After the other forms of a sequence its last form is the tail. -/
theorem ends_performSequence (evaluated : InTurn files room frame world forms values parts after)
    (last : Value) :
    Ends
      (fun fuel => SpecialForm.performSequence (evaluate files fuel) room frame (forms ++ [last]))
      world (.finished (.tail last frame) after) := by
  induction evaluated with
  | none world => exact .const rfl
  | @next _ _ _ form _ forms _ _ ends _ ih =>
    have unfolded : ∀ fuel,
        SpecialForm.performSequence (evaluate files fuel) room frame (form :: forms ++ [last]) =
          Evaluator.nested (evaluate files fuel) Room.evaluation room form frame >>= fun _ =>
            SpecialForm.performSequence (evaluate files fuel) room frame (forms ++ [last]) := by
      intro fuel
      obtain ⟨first, rest, same⟩ := List.exists_cons_of_ne_nil (List.concat_ne_nil last forms)
      rw [List.cons_append, same]
      rfl
    simp only [unfolded]
    exact .bind_finished (stable_nested room frame _ form)
      (fun _ => stable_performSequence room frame (forms ++ [last])) ends ih

end InTurn

namespace BoundInTurn

variable {frame : FrameId} {world after : World} {bindings : List Value} {parts : List Task}

theorem ends_bindPairs (bound : BoundInTurn files room frame world bindings parts after) :
    Ends (fun fuel => SpecialForm.bindPairs (evaluate files fuel) room frame bindings) world
      (.finished () after) := by
  induction bound with
  | none world => exact .const rfl
  | @next _ _ _ name form _ bindings _ ends _ ih =>
    simp only [SpecialForm.bindPairs]
    refine .bind_finished (stable_nested room frame _ form) (fun value => ?_) ends ?_
    · exact (stable_const _).bind fun _ => stable_bindPairs room frame bindings
    · exact .bind_finished (stable_const _) (fun _ => stable_bindPairs room frame bindings)
        (.const rfl) ih

theorem even_length (bound : BoundInTurn files room frame world bindings parts after) :
    bindings.length % 2 = 0 := by
  induction bound with
  | none world => rfl
  | next _ _ ih =>
    rw [List.length_cons, List.length_cons]
    omega

end BoundInTurn

theorem ends_performChoose {frame : FrameId} {world after : World} {condition value : Value}
    (ends : Task.InnerEndsIn files room ⟨condition, frame, world⟩ (.finished value after))
    (whenTrue : Value) {others : List Value} (few : others.length ≤ 1) :
    Ends
      (fun fuel => SpecialForm.performChoose (evaluate files fuel) room frame
        (condition :: whenTrue :: others))
      world (.finished (SpecialForm.branch frame value whenTrue others.head?) after) := by
  have stable := @stable_nested files room frame Room.evaluation condition
  obtain _ | ⟨whenFalse, _ | ⟨_, _⟩⟩ := others
  · exact (ends_bind_pure_iff stable).2 (.inr ⟨value, after, ends, rfl⟩)
  · exact (ends_bind_pure_iff stable).2 (.inr ⟨value, after, ends, rfl⟩)
  · simp at few

/-- **The first step of a task around another comes to that other one.** -/
theorem Layer.stepEndsIn {outer inner : Task} {parts : List Task}
    (layer : Layer files room outer parts inner) :
    outer.StepEndsIn files room (.finished (.tail inner.form inner.frame) inner.world) := by
  cases layer with
  | @whenTrue condition whenTrue value others frame world after ends truthy few =>
    have chosen := ends_performChoose ends whenTrue few
    rw [SpecialForm.branch.eq_def, if_pos truthy] at chosen
    exact chosen
  | @whenFalse condition whenTrue whenFalse value frame world after ends falsy =>
    have chosen := ends_performChoose ends whenTrue (Nat.le_refl [whenFalse].length)
    rw [SpecialForm.branch.eq_def, falsy] at chosen
    exact chosen
  | last evaluated => exact evaluated.ends_performSequence _
  | @body bindings body frame world after parts bound =>
    have unfolded : ∀ fuel,
        step files (evaluate files fuel) room (.list [.symbol "let*", .list bindings, body]) frame =
          (do
            let inner ← Action.newFrame (some frame)
            SpecialForm.bindPairs (evaluate files fuel) room inner bindings
            return .tail body inner) := by
      intro fuel
      simp only [step, specialForm?, SpecialForm.ofName?]
      exact if_pos bound.even_length
    simp only [Task.StepEndsIn, unfolded]
    have second : ∀ inner, Stable fun fuel =>
        (SpecialForm.bindPairs (evaluate files fuel) room inner bindings >>= fun _ =>
          pure (.tail body inner) : Action Step) :=
      fun inner => (stable_bindPairs room inner bindings).bind fun _ => stable_const _
    refine .bind_finished (stable_const _) second (.const rfl) ?_
    exact .bind_finished (stable_bindPairs room _ bindings) (fun _ => stable_const _)
      bound.ends_bindPairs (.const rfl)
  | @call head operands arguments identity parameters body outer frame inner world between after
      parts ordinary evaluated applied =>
    have unfolded : ∀ fuel,
        step files (evaluate files fuel) room (.list (head :: operands)) frame =
          applyItems files (evaluate files fuel) room frame (head :: operands) := by
      intro fuel
      simp only [step, ordinary]
    simp only [Task.StepEndsIn, unfolded, applyItems, Evaluator.all]
    refine .bind_finished (stable_allOnto room frame [] _) (fun values => ?_)
      (evaluated.ends_allOnto []) (.const applied)
    cases values with
    | nil => exact stable_const _
    | cons head arguments => exact stable_apply room head arguments

/-! ## Nested layers -/

theorem Nesting.of_fits {outer hole : Task} {parts : List Task}
    (nesting : Nesting files .unlimited outer parts hole)
    (fit : ∀ part ∈ parts, part.InnerFits files room) : Nesting files room outer parts hole := by
  induction nesting with
  | hole task => exact .hole task
  | layer layer _ ih =>
    obtain ⟨near, far⟩ := List.forall_mem_append.1 fit
    exact .layer (layer.of_fits near) (ih far)

/-- The outermost task comes to the innermost. -/
theorem Nesting.exists_run {outer hole : Task} {parts : List Task}
    (nesting : Nesting files room outer parts hole) :
    ∃ count, Run files room outer count hole := by
  induction nesting with
  | hole task => exact ⟨0, .start task⟩
  | layer layer _ ih =>
    obtain ⟨count, run⟩ := ih
    exact ⟨count + 1, .further layer.stepEndsIn run⟩

/-- **Tails take no room.**

However many steps follow each other in an evaluation, it never fails for want of room if and
only if no step that it comes to does, each taken alone in the room of the whole.

And where a form stands in a tail position, of forms around each other to any depth and of
bodies of closures that are called, evaluating all of it takes no more room than the larger of
two: what the form takes alone, and what the parts around it take that are no tails.  In that
room the whole ends as the form does. -/
theorem tails_take_no_room (files : FileTree) :
    (∀ (room : Room) (task : Task), task.Fits files room ↔
      ∀ count last, Run files room task count last → last.StepFits files room) ∧
    ∀ (outer hole : Task) (parts : List Task), Nesting files .unlimited outer parts hole →
      ∀ limit limit' : Nat, (∀ part ∈ parts, part.InnerFits files (.frames limit)) →
        hole.Fits files (.frames limit') →
          outer.Fits files (.frames (max limit limit')) ∧
          ∀ outcome, outer.EndsIn files (.frames (max limit limit')) outcome ↔
            hole.EndsIn files (.frames (max limit limit')) outcome := by
  refine ⟨Task.fits_iff files, ?_⟩
  intro outer hole parts nesting limit limit' parts_fit hole_fits
  have near : (Room.frames limit).AtMost (.frames (max limit limit')) :=
    Nat.le_max_left limit limit'
  have far : (Room.frames limit').AtMost (.frames (max limit limit')) :=
    Nat.le_max_right limit limit'
  have fit : ∀ part ∈ parts, part.InnerFits files (.frames (max limit limit')) :=
    fun part among => (parts_fit part among).mono near
  obtain ⟨count, run⟩ := (nesting.of_fits fit).exists_run
  refine ⟨?_, fun outcome => run.endsIn_iff⟩
  intro outcome ends
  exact hole_fits.mono far outcome (run.endsIn_iff.1 ends)

/-! ### A function that calls itself -/

/-- A function of one parameter, made in the first frame, that calls itself as `again`. -/
def caller : Value :=
  .closure 0 ["x"] (.list [.symbol "again", .nil]) 0

/-- Whether a task is the call of that function by its name. -/
structure CallsAgain (task : Task) : Prop where
  bound : (task.world.heap.bindings 0).find? "again" = some caller
  seen : task.world.heap.lookup? task.frame "again" = some caller
  form_eq : task.form = .list [.symbol "again", .nil]

namespace CallsAgain

/-- The call comes to another in one step, for which three frames are enough. -/
theorem step (files : FileTree) {task : Task} (calls : CallsAgain task) :
    ∃ form frame between,
      task.StepEndsIn files (.frames 3) (.finished (.tail form frame) between) ∧
      CallsAgain ⟨form, frame, between⟩ := by
  obtain ⟨form, frame, world⟩ := task
  obtain ⟨bound, seen, rfl⟩ := calls
  refine ⟨.list [.symbol "again", .nil], world.heap.size, world.calling 0 "x" .nil,
    .of_finished 1 ?_, ?_⟩
  · have head : HasValue files 1 (.frames 0) frame world (.symbol "again") caller :=
      hasValue_symbol seen
    have operand : HasValue files 1 (.frames 0) frame world .nil .nil := rfl
    exact step_of_hasValue rfl rfl (.cons head (.cons operand .nil))
  · have present := Heap.lt_size_of_find? bound
    have kept := (world.preserves_calling 0 "x" .nil).frame?_eq 0 present id
    refine ⟨?_, world.lookup?_calling "x" .nil bound (by decide), rfl⟩
    rw [Heap.bindings, kept]
    exact bound

theorem of_run {task last : Task} {count : Nat} (run : Run files (.frames 3) task count last)
    (calls : CallsAgain task) : CallsAgain last := by
  induction run with
  | start task => exact calls
  | further tail _ ih =>
    obtain ⟨form, frame, between, ends, goes_on⟩ := calls.step files
    cases ends.unique (stable_step files _ _ _) tail
    exact ih goes_on

theorem stepFits {task : Task} (calls : CallsAgain task) : task.StepFits files (.frames 3) := by
  obtain ⟨form, frame, between, ends, _⟩ := calls.step files
  exact ends.neverTooDeep (stable_step files _ _ _) (Outcome.not_isTooDeep_finished _ _)

end CallsAgain

/-- A form that evaluates to itself is a part that fits into three frames. -/
theorem Task.inner_of_literal {value : Value} {frame : FrameId} {world : World}
    (itself : ∀ room, evaluate files 1 room value frame world = .finished value world) :
    Task.InnerEndsIn files .unlimited ⟨value, frame, world⟩ (.finished value world) ∧
      Task.InnerFits files (.frames 3) ⟨value, frame, world⟩ := by
  have ends : Task.InnerEndsIn files (.frames 3) ⟨value, frame, world⟩ (.finished value world) :=
    .of_finished 1 (itself (.frames 0))
  refine ⟨.of_finished 1 (itself .unlimited), ?_⟩
  exact ends.neverTooDeep (stable_nested _ _ _ _) (Outcome.not_isTooDeep_finished value world)

/-- A function that calls itself forever, called in a body, as a last form, in a branch: three
frames are enough. -/
theorem endless_calls_take_no_room :
    let form : Value := .list [.symbol "if", .nil, .nil, .list [.symbol "do", .nil,
      .list [.symbol "let*", .list [.symbol "a", .nil], .list [caller, .nil]]]]
    let heap := (Heap.empty.push none).define 0 "again" caller
    Task.Fits .empty (.frames 3) ⟨form, 0, ⟨heap, 0, ""⟩⟩ := by
  intro form heap
  let world : World := ⟨heap, 0, ""⟩
  let bound : World := { world with heap := (world.heap.push (some 0)).define 1 "a" .nil }
  let hole : Task := ⟨.list [.symbol "again", .nil], 2, bound.calling 0 "x" .nil⟩
  have constant : ∀ (frame : FrameId) (world : World),
      Task.InnerEndsIn .empty .unlimited ⟨.nil, frame, world⟩ (.finished .nil world) ∧
        Task.InnerFits .empty (.frames 3) ⟨.nil, frame, world⟩ :=
    fun frame world => Task.inner_of_literal fun _ => rfl
  have function : Task.InnerEndsIn .empty .unlimited ⟨caller, 1, bound⟩ (.finished caller bound) ∧
      Task.InnerFits .empty (.frames 3) ⟨caller, 1, bound⟩ :=
    Task.inner_of_literal fun _ => rfl
  have nesting : Nesting .empty .unlimited ⟨form, 0, world⟩ _ hole :=
    .layer (.whenFalse (constant 0 world).1 rfl) <|
      .layer (@Layer.last _ _ [.nil] _ _ _ _ _ _ (.next (constant 0 world).1 (.none world))) <|
        .layer (.body (.next (constant 1 _).1 (.none bound))) <|
          .layer (.call rfl (.next function.1 (.next (constant 1 bound).1 (.none bound))) rfl) <|
            .hole hole
  have calls : CallsAgain hole :=
    ⟨rfl, bound.lookup?_calling "x" .nil rfl (by decide), rfl⟩
  have hole_fits := ((tails_take_no_room .empty).1 (.frames 3) hole).2
    fun count last run => (calls.of_run run).stepFits
  refine ((tails_take_no_room .empty).2 _ _ _ nesting 3 3 ?_ hole_fits).1
  simp only [List.forall_mem_append, List.forall_mem_cons]
  exact ⟨⟨(constant _ _).2, nofun⟩, ⟨(constant _ _).2, nofun⟩, ⟨(constant _ _).2, nofun⟩,
    ⟨function.2, (constant _ _).2, nofun⟩, nofun⟩

end Lisp
