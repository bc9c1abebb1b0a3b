import Lisp.Proofs.EvaluationLoop
import Lisp.Proofs.ValuesInLessRoom

/-!
# The limit on the depth

A run with less room does what the same run does with more, until it is too deep for the
room that it has; then it fails, and no part of it goes on after that failure
(`Action.CutShort`).  What is done in two parts is cut short when one of them is
(`Action.CutShort.bind`), so each step is when the evaluator of its inner forms is
(`Evaluator.parts_cutShort`, `step_cutShort`), and by induction on the fuel so is every
evaluation (`evaluate_cutShort`).

So the limit never changes an answer: it only ever takes the place of one
(`evaluation_under_larger_limit`).
-/

set_option autoImplicit false

namespace Lisp

/-! ## Actions that are cut short -/

/-- Whether all that was written in one world still stands, in front, in a later one. -/
def World.KeptBy (before after : World) : Prop :=
  ∃ text, after.output = before.output ++ text

namespace World.KeptBy

theorem of_output_eq {before after : World} (same : after.output = before.output) :
    before.KeptBy after :=
  ⟨"", by rw [same, String.append_empty]⟩

theorem refl (world : World) : world.KeptBy world :=
  of_output_eq rfl

theorem trans {before between after : World} (first : before.KeptBy between)
    (second : between.KeptBy after) : before.KeptBy after := by
  obtain ⟨text, written⟩ := first
  obtain ⟨further, written'⟩ := second
  exact ⟨text ++ further, by rw [written', written, String.append_assoc]⟩

end World.KeptBy

namespace Outcome

variable {α : Type}

/-- Whether an action ended for want of room. -/
def IsTooDeep (outcome : Outcome α) : Prop :=
  ∃ failure after, outcome = .failed failure after ∧ failure.IsTooDeep

theorem not_isTooDeep_finished (value : α) (after : World) :
    ¬ (finished value after).IsTooDeep := by
  rintro ⟨failure, last, same, _⟩
  cases same

/-- Whether one action ended as another did, or failed for want of room before that one came
to its end: what it wrote is the beginning of what the other wrote. -/
def CutShort (short long : Outcome α) : Prop :=
  long = short ∨ ∃ failure between, short = .failed failure between ∧ failure.IsTooDeep ∧
    ∀ after, long.world? = some after → between.KeptBy after

end Outcome

namespace Action

variable {α β : Type}

/-- Whether an action only adds to what was written. -/
def KeepsOutput (action : Action α) : Prop :=
  ∀ world after, (action world).world? = some after → world.KeptBy after

/-- Whether an action does what another does or is cut short, where that other one only adds
to what was written. -/
structure CutShort (short long : Action α) : Prop where
  ends : ∀ world, (short world).CutShort (long world)
  keeps : KeepsOutput long

theorem KeepsOutput.bind {action : Action α} {next : α → Action β} (first : KeepsOutput action)
    (second : ∀ value, KeepsOutput (next value)) : KeepsOutput (action >>= next) := by
  intro world after left
  have kept := first world
  rw [bind_apply] at left
  cases ended : action world with
  | finished value between =>
    rw [ended] at kept left
    exact (kept between rfl).trans (second value between after left)
  | failed failure last =>
    rw [ended] at kept left
    exact kept after left
  | outOfFuel =>
    rw [ended] at left
    cases left

namespace CutShort

/-- What does not depend on the room is not cut short. -/
theorem of_keeps {action : Action α} (keeps : KeepsOutput action) : CutShort action action :=
  ⟨fun _ => .inl rfl, keeps⟩

/-- Where there is too little room nothing is done. -/
theorem of_tooDeep {failure : Failure} (tooDeep : failure.IsTooDeep) {long : Action α}
    (keeps : KeepsOutput long) : CutShort (fail failure) long :=
  ⟨fun world => .inr ⟨failure, world, rfl, tooDeep, keeps world⟩, keeps⟩

theorem pure (value : α) : CutShort (pure value : Action α) (Pure.pure value) := by
  apply of_keeps
  rintro world _ ⟨⟩
  exact .refl world

theorem fail (failure : Failure) : CutShort (fail failure : Action α) (Action.fail failure) := by
  apply of_keeps
  rintro world _ ⟨⟩
  exact .refl world

theorem throw (error : Error) : CutShort (throw error : Action α) (Action.throw error) :=
  fail (.error error)

/-- **What is done in two parts is cut short when either part is.** -/
theorem bind {short long : Action α} {next next' : α → Action β} (first : CutShort short long)
    (second : ∀ value, CutShort (next value) (next' value)) :
    CutShort (short >>= next) (long >>= next') := by
  refine ⟨?_, first.keeps.bind fun value => (second value).keeps⟩
  intro world
  rw [bind_apply, bind_apply]
  rcases first.ends world with same | ⟨failure, between, ended, tooDeep, further⟩
  · rw [same]
    cases short world with
    | finished value after => exact (second value).ends after
    | failed failure after => exact .inl rfl
    | outOfFuel => exact .inl rfl
  · -- The second part is not begun; what the other run writes in it comes behind.
    rw [ended]
    refine .inr ⟨failure, between, rfl, tooDeep, ?_⟩
    intro after left
    cases ended' : long world with
    | finished value middle =>
      rw [ended'] at further left
      exact (further middle rfl).trans ((second value).keeps middle after left)
    | failed failure last =>
      rw [ended'] at further left
      exact further after left
    | outOfFuel =>
      rw [ended'] at left
      cases left

theorem ofExcept {small large : Except Failure α}
    (agrees : AgreesUnless Failure.IsTooDeep small large) :
    CutShort (ofExcept small) (Action.ofExcept large) := by
  have alone : ∀ computation : Except Failure α,
      CutShort (Action.ofExcept computation) (Action.ofExcept computation) := by
    intro computation
    cases computation with
    | ok value => exact pure value
    | error failure => exact fail failure
  rcases agrees with ⟨failure, rfl, tooDeep⟩ | rfl
  · exact of_tooDeep tooDeep (alone large).keeps
  · exact alone large

/-! ### Single actions -/

theorem lookup (frame : FrameId) (name : String) :
    CutShort (lookup frame name) (Action.lookup frame name) := by
  apply of_keeps
  intro world after left
  unfold Action.lookup at left
  split at left <;> cases left <;> exact .refl world

theorem define (frame : FrameId) (name : String) (value : Value) :
    CutShort (define frame name value) (Action.define frame name value) := by
  apply of_keeps
  rintro world _ ⟨⟩
  exact .of_output_eq rfl

theorem newFrame (outer? : Option FrameId) :
    CutShort (newFrame outer?) (Action.newFrame outer?) := by
  apply of_keeps
  rintro world _ ⟨⟩
  exact .of_output_eq rfl

theorem newClosure (parameters : List String) (body : Value) (frame : FrameId) :
    CutShort (newClosure parameters body frame) (Action.newClosure parameters body frame) := by
  apply of_keeps
  rintro world _ ⟨⟩
  exact .of_output_eq rfl

theorem write (text : String) : CutShort (write text) (Action.write text) := by
  apply of_keeps
  rintro world _ ⟨⟩
  exact ⟨text, rfl⟩

theorem throwShowing {small large : Room} (atMost : small.AtMost large) (value : Value)
    (error : String → Error) :
    CutShort (throwShowing small value error : Action α)
      (Action.throwShowing large value error) := by
  have alone : CutShort (Action.throwShowing large value error : Action α)
      (Action.throwShowing large value error) := by
    unfold Action.throwShowing
    split
    · exact throw _
    · exact fail _
  rcases value.shown_of_atMost atMost with ⟨fault, full, rfl⟩ | same
  · have short : (Action.throwShowing small value error : Action α) =
        Action.fail (.fault .stackExhausted) := by
      unfold Action.throwShowing
      rw [full]
    rw [short]
    exact of_tooDeep Failure.isTooDeep_stackExhausted alone.keeps
  · have short : (Action.throwShowing small value error : Action α) =
        Action.throwShowing large value error := by
      unfold Action.throwShowing
      rw [same]
    rw [short]
    exact alone

theorem mapFailure {short long : Action α} (cut : CutShort short long)
    {replace : Failure → Failure}
    (tooDeep_too : ∀ failure, failure.IsTooDeep → (replace failure).IsTooDeep) :
    CutShort (short.mapFailure replace) (long.mapFailure replace) where
  ends world := by
    rcases cut.ends world with same | ⟨failure, between, ended, tooDeep, further⟩
    · left
      rw [Action.mapFailure, Action.mapFailure, same]
    · right
      refine ⟨replace failure, between, ?_, tooDeep_too failure tooDeep, ?_⟩
      · rw [Action.mapFailure, ended]
        rfl
      · intro after left
        rw [Action.mapFailure, Outcome.world?_mapFailure] at left
        exact further after left
  keeps world after left := by
    rw [Action.mapFailure, Outcome.world?_mapFailure] at left
    exact cut.keeps world after left

end CutShort

end Action

/-! ## How what is cut short ends -/

section Endings

variable {α : Type}

/-- Whether actions, with whatever fuel, do not end for want of room. -/
def NeverTooDeep (actions : Nat → Action α) (world : World) : Prop :=
  ∀ outcome, Ends actions world outcome → ¬ outcome.IsTooDeep

theorem Ends.neverTooDeep {actions : Nat → Action α} (stable : Stable actions) {world : World}
    {outcome : Outcome α} (ends : Ends actions world outcome) (fits : ¬ outcome.IsTooDeep) :
    NeverTooDeep actions world := by
  intro outcome' ends'
  rw [ends'.unique stable ends]
  exact fits

variable {short long : Nat → Action α}
variable (cut : ∀ fuel, Action.CutShort (short fuel) (long fuel))
include cut

/-- What ends in another way than for want of room ends so with more room. -/
theorem Ends.with_more_room {world : World} {outcome : Outcome α}
    (ends : Ends short world outcome) (fits : ¬ outcome.IsTooDeep) : Ends long world outcome := by
  obtain ⟨some_way, fuel, rfl⟩ := ends
  rcases (cut fuel).ends world with same | ⟨failure, between, ended, tooDeep, _⟩
  · exact ⟨some_way, fuel, same⟩
  · exact absurd ⟨failure, between, ended, tooDeep⟩ fits

/-- What never ends for want of room ends as it does with more room. -/
theorem Ends.with_less_room {world : World} (never : NeverTooDeep short world)
    {outcome : Outcome α} (ends : Ends long world outcome) : Ends short world outcome := by
  obtain ⟨some_way, fuel, rfl⟩ := ends
  rcases (cut fuel).ends world with same | ⟨failure, between, ended, tooDeep, _⟩
  · exact ⟨some_way, fuel, same.symm⟩
  · exact absurd ⟨failure, between, rfl, tooDeep⟩ (never _ (.of_failed fuel ended))

theorem NeverTooDeep.with_more_room {world : World} (never : NeverTooDeep short world) :
    NeverTooDeep long world := by
  intro outcome ends
  exact never outcome (ends.with_less_room cut never)

end Endings

/-! ## Inner forms -/

/-- Whether an evaluator, given less room, does what it does with more or is cut short. -/
def Evaluator.OnlyCutShort (evaluator : Evaluator) : Prop :=
  ∀ small large, small.AtMost large → ∀ form frame,
    Action.CutShort (evaluator small form frame) (evaluator large form frame)

section Inner

variable {evaluator : Evaluator} (only : evaluator.OnlyCutShort)
variable {small large : Room} (atMost : small.AtMost large)
include only atMost

theorem Evaluator.nested_cutShort (cost : Nat) (form : Value) (frame : FrameId) :
    Action.CutShort (evaluator.nested cost small form frame)
      (evaluator.nested cost large form frame) := by
  unfold Evaluator.nested
  rcases atMost.enter?_cases cost with full | ⟨inner, inner', entered, entered', inside⟩
  · rw [full]
    apply Action.CutShort.of_tooDeep Failure.isTooDeep_stackExhausted
    split
    · next room _ => exact (only room room (Room.AtMost.refl room) form frame).keeps
    · exact (Action.CutShort.fail _).keeps
  · rw [entered, entered']
    exact only inner inner' inside form frame

/-- **Where an evaluator is only cut short with less room, so is all that steps do with it.** -/
theorem Evaluator.parts_cutShort :
    PartsRelated Action.CutShort evaluator evaluator small large where
  bind := Action.CutShort.bind
  pure := .pure
  throw := .throw
  lookup := .lookup
  define := .define
  newFrame := .newFrame
  newClosure := .newClosure
  nested := nested_cutShort only atMost Room.evaluation
  throwShowing := .throwShowing atMost
  render value := .ofExcept (value.render_of_atMost .readable atMost)

/-! ## Native operations and steps -/

theorem Builtin.call_cutShort (files : FileTree) (operation : Builtin) (root : FrameId)
    (arguments : List Value) :
    Action.CutShort (operation.call files evaluator small root arguments)
      (operation.call files evaluator large root arguments) := by
  cases operation with
  | equal => exact .ofExcept (same_of_atMost atMost arguments)
  | list => exact .pure _
  | printLine =>
    apply (Action.CutShort.ofExcept (line_of_atMost atMost arguments)).bind
    intro text
    exact (Action.CutShort.write text).bind fun _ => .pure _
  | concatenate => exact .ofExcept (joined_of_atMost atMost arguments)
  | readText => exact .ofExcept (formOfText_of_atMost atMost arguments)
  | evaluate =>
    simp only [Builtin.call, Builtin.evaluateIn]
    split
    · exact Evaluator.nested_cutShort only atMost _ _ root
    · exact .fail _
  | _ => exact .ofExcept (.refl _)

/-- **With less room a step does what it does with more or is cut short, when the evaluator of
its inner forms is.** -/
theorem step_cutShort (files : FileTree) (form : Value) (frame : FrameId) :
    Action.CutShort (step files evaluator small form frame)
      (step files evaluator large form frame) :=
  (Evaluator.parts_cutShort only atMost).step_call
    (fun operation => Builtin.call_cutShort only atMost files operation) form frame

end Inner

/-! ## Evaluation -/

@[simp]
theorem Failure.isTooDeep_ofStep (failure : Failure) :
    failure.ofStep.IsTooDeep ↔ failure.IsTooDeep := by
  cases failure with
  | error reported => rfl
  | fault met => cases met <;> simp [ofStep, IsTooDeep, Error.category]

/-- **With less room an evaluation does what it does with more, or is cut short.** -/
theorem evaluate_cutShort (files : FileTree) (fuel : Nat) :
    Evaluator.OnlyCutShort (evaluate files fuel) := by
  induction fuel with
  | zero =>
    intro small large _ form frame
    refine ⟨fun world => .inl rfl, ?_⟩
    rintro world after ⟨⟩
  | succ fuel ih =>
    intro small large atMost form frame
    rw [evaluate_succ, evaluate_succ]
    have stepped := step_cutShort ih atMost files form frame
    apply (stepped.mapFailure fun failure => failure.isTooDeep_ofStep.2).bind
    intro result
    cases result with
    | done value => exact .pure value
    | tail form frame => exact ih small large atMost form frame

/-- **A larger limit on the depth never changes how an evaluation or a reading ends, unless it
ends for want of room.**

An evaluation that does not end so ends in the same way with more room: with the same value
or failure, in the same world.  If it does end so, and ends with more room too, what it had
written until then is the beginning of what is written with more room.  And tokens that are
not too deep to be read in less room read the same in more. -/
theorem evaluation_under_larger_limit {small large : Room} (atMost : small.AtMost large) :
    (∀ (files : FileTree) (form : Value) (frame : FrameId) (world : World)
        (outcome : Outcome Value),
      Ends (fun fuel => evaluate files fuel small form frame) world outcome →
        (¬ outcome.IsTooDeep →
          Ends (fun fuel => evaluate files fuel large form frame) world outcome) ∧
        ∀ failure between, outcome = .failed failure between → failure.IsTooDeep →
          ∀ outcome' after, Ends (fun fuel => evaluate files fuel large form frame) world outcome' →
            outcome'.world? = some after → between.KeptBy after) ∧
    ∀ tokens : List String,
      (∀ failure, (readNested small tokens).result = .error failure → ¬ failure.IsTooDeep) →
        readNested large tokens = readNested small tokens := by
  refine ⟨?_, ?_⟩
  · intro files form frame world outcome ends
    refine ⟨?_, ?_⟩
    · exact ends.with_more_room fun fuel =>
        evaluate_cutShort files fuel small large atMost form frame
    · rintro failure between rfl tooDeep outcome' after ends' left
      obtain ⟨enough, ended⟩ := ends.eventually (stable_evaluate files small form frame)
      obtain ⟨enough', ended'⟩ := ends'.eventually (stable_evaluate files large form frame)
      have cut := (evaluate_cutShort files (max enough enough') small large atMost form frame).ends
        world
      rw [ended _ (Nat.le_max_left _ _), ended' _ (Nat.le_max_right _ _)] at cut
      rcases cut with same | ⟨failure, _, same, _, further⟩
      · rw [same] at left
        cases left
        exact .refl between
      · cases same
        exact further after left
  · intro tokens fits
    rcases readNested_of_less_room atMost tokens with tooDeep | same
    · exact absurd rfl (fits _ tooDeep)
    · exact same

/-- A line is written, then three forms nest, and then another line is written.  With six
frames there is room for two of the three only, and nothing stands behind the first line. -/
theorem deep_sequence_under_larger_limit :
    let print : Value := .list [.native .printLine 0]
    let deep : Value := .list [.symbol "do", .list [.symbol "do", .nil, .nil], .nil]
    let limited := fun room fuel =>
      evaluate .empty fuel (.frames room) (.list [.symbol "do", print, deep, print]) 0
    (Room.frames 6).AtMost (.frames 9) ∧
    ∃ between after,
      Ends (limited 6) .initial (.failed (.error .evaluationTooDeep) between) ∧
      Ends (limited 9) .initial (.finished .nil after) ∧
      Ends (limited 12) .initial (.finished .nil after) ∧ between.KeptBy after := by
  intro print deep limited
  have atMost : (Room.frames 6).AtMost (.frames 9) :=
    Nat.le_of_ble_eq_true rfl
  have further : (Room.frames 9).AtMost (.frames 12) :=
    Nat.le_of_ble_eq_true rfl
  have short : Ends (limited 6) .initial
      (.failed (.error .evaluationTooDeep) { World.initial with output := "\n" }) :=
    .of_failed 8 rfl
  have long : Ends (limited 9) .initial (.finished .nil { World.initial with output := "\n\n" }) :=
    .of_finished 8 rfl
  have longer := ((evaluation_under_larger_limit further).1 _ _ _ _ _ long).1
    (Outcome.not_isTooDeep_finished _ _)
  have kept := ((evaluation_under_larger_limit atMost).1 _ _ _ _ _ short).2 _ _ rfl rfl _ _ long rfl
  exact ⟨atMost, _, _, short, long, longer, kept⟩

end Lisp
