import Lisp.Proofs.EvaluationLoop
import Lisp.Proofs.OrdinaryValues

/-!
# Faults of file names

A program that asks for a file whose name has a NUL character in it is stopped with a fault,
and no other operation meets that fault.  So if the one operation that reads files refused
such names with an error of the language (`Operations.refusing`), a run would fail with that
error where it fails with the fault now, and would be the same in all else
(`Operations.evaluate_refusing`).

This goes part by part: what a run does in two parts has its failures replaced when both
parts have (`Action.mapFailure_bind`), and single actions meet no fault of this kind.  So
steps only meet it in native operations (`Evaluator.parts_replacingNul`).
-/

set_option autoImplicit false

namespace Lisp

/-- The same failure, but an error in place of the fault of a file name. -/
def Failure.replacingNul (substitute : Error) : Failure → Failure
  | .fault .nulInFileName => .error substitute
  | failure => failure

/-- The same evaluator, but for failing with an error where it met the fault of a file name. -/
def Evaluator.replacingNul (substitute : Error) (evaluator : Evaluator) : Evaluator :=
  fun room form frame => (evaluator room form frame).mapFailure (.replacingNul substitute)

/-- The native operations, of which the one that reads files refuses names with a NUL
character in them with an error. -/
def Operations.refusing (substitute : Error) : Operations :=
  fun operation files evaluator room root arguments =>
    if operation = .readFile ∧ Builtin.namesNul arguments = true then Action.throw substitute
    else operation.call files evaluator room root arguments

/-- Whether an action is another with the error in place of the fault. -/
def Action.Replaces (substitute : Error) {α : Type} (action action' : Action α) : Prop :=
  action.mapFailure (.replacingNul substitute) = action'

variable {substitute : Error}

/-! ## Single actions -/

namespace Action

variable {α : Type}

theorem replacingNul_lookup (frame : FrameId) (name : String) :
    (lookup frame name).mapFailure (.replacingNul substitute) = lookup frame name := by
  funext world
  unfold mapFailure lookup
  split <;> rfl

/-- A computation on values does not meet the fault of a file name. -/
theorem replacingNul_ofExcept {room : Room} {result : α → Prop} {computation : Except Failure α}
    (gives : Gives room.Meets result computation) :
    (ofExcept computation).mapFailure (.replacingNul substitute) = ofExcept computation := by
  cases computation with
  | ok value => rfl
  | error failure =>
    cases failure with
    | error error => rfl
    | fault met => rcases gives with rfl | ⟨rfl, _⟩ <;> rfl

theorem replacingNul_throwShowing (room : Room) (value : Value) (error : String → Error) :
    (throwShowing room value error : Action α).mapFailure (.replacingNul substitute) =
      throwShowing room value error := by
  have fails := value.shown_fails room
  unfold throwShowing
  split
  · rfl
  · next fault shown =>
    rw [shown] at fails
    cases fails
    rfl

end Action

/-! ## Inner forms -/

section Inner

variable (evaluator : Evaluator) (room : Room)

theorem Evaluator.nested_replacingNul (cost : Nat) (form : Value) (frame : FrameId) :
    (evaluator.nested cost room form frame).mapFailure (.replacingNul substitute) =
      (evaluator.replacingNul substitute).nested cost room form frame := by
  unfold Evaluator.nested
  split <;> rfl

/-- **Where an evaluator fails with the error in place of the fault, so do steps in all else
that they do.** -/
theorem Evaluator.parts_replacingNul :
    PartsRelated (Action.Replaces substitute) evaluator (evaluator.replacingNul substitute) room
      room where
  bind := by
    rintro α β action _ next next' rfl second
    rw [Action.Replaces, Action.mapFailure_bind]
    exact congrArg _ (funext second)
  pure _ := rfl
  throw _ := rfl
  lookup := Action.replacingNul_lookup
  define _ _ _ := rfl
  newFrame _ := rfl
  newClosure _ _ _ := rfl
  nested := nested_replacingNul evaluator room Room.evaluation
  throwShowing := Action.replacingNul_throwShowing room
  render value := Action.replacingNul_ofExcept (value.gives_render .readable room)

/-! ## Native operations -/

namespace Builtin

/-- What a reader that a program calls fails with is an error. -/
theorem meets_formOfText (arguments : List Value) :
    Gives room.Meets Anything (formOfText room arguments) := by
  refine (gives_onlyArgument room .readText arguments).bind fun argument _ => ?_
  split
  · next source _ =>
    cases read : Lisp.readText room source with
    | ok value => trivial
    | error failure =>
      obtain ⟨error, rfl, _⟩ := readText_fails read
      trivial
  · exact (Value.gives_kind room _).bind fun _ _ => trivial

/-- **Only the operation that reads files meets the fault of a file name.** -/
theorem call_replacingNul (operation : Builtin) (files : FileTree) (root : FrameId)
    (arguments : List Value) :
    (operation.call files evaluator room root arguments).mapFailure (.replacingNul substitute) =
      Operations.refusing substitute operation files (evaluator.replacingNul substitute) room root
        arguments := by
  by_cases refused : operation = .readFile ∧ namesNul arguments = true
  · obtain ⟨rfl, nul⟩ := refused
    rw [Operations.refusing, if_pos ⟨rfl, nul⟩, call, fileText_of_namesNul files nul]
    rfl
  rw [Operations.refusing, if_neg refused]
  by_cases other : operation ∈ [Builtin.list, .printLine, .readFile, .readText, .evaluate]
  case neg =>
    obtain ⟨compute, gives, called⟩ := computes room other
    rw [called, called]
    exact Action.replacingNul_ofExcept (gives arguments)
  simp only [List.mem_cons, List.not_mem_nil, or_false] at other
  rcases other with rfl | rfl | rfl | rfl | rfl
  · rfl
  · have line : Gives room.Meets Anything (line room arguments) :=
      (gives_joinedItems .readable room arguments).bind fun _ _ => trivial
    simp only [call, Action.mapFailure_bind, Action.replacingNul_ofExcept line]
    rfl
  · exact Action.replacingNul_ofExcept (meets_fileText room files fun nul => refused ⟨rfl, nul⟩)
  · exact Action.replacingNul_ofExcept (meets_formOfText room arguments)
  · have only := gives_onlyArgument room .evaluate arguments
    simp only [call, evaluateIn]
    split
    · exact Evaluator.nested_replacingNul evaluator room _ _ root
    · next failure fails =>
      have refused := @Action.replacingNul_ofExcept substitute _ _ _ _ only
      rw [fails] at refused
      exact refused

end Builtin

/-! ## Steps -/

/-- **A step fails with the error where it failed with the fault, and is the same in all else.** -/
theorem step_replacingNul (files : FileTree) (form : Value) (frame : FrameId) :
    (step files evaluator room form frame).mapFailure (.replacingNul substitute) =
      (Operations.refusing substitute).step files (evaluator.replacingNul substitute) room form
        frame := by
  rw [← Operations.step_call]
  exact (Evaluator.parts_replacingNul evaluator room).step
    (fun operation => Builtin.call_replacingNul evaluator room operation files) form frame

end Inner

/-! ## Evaluation -/

theorem Direct.follow_replacingNul (evaluator : Evaluator) (room : Room) (result : Step) :
    (Direct.follow (evaluator room) result).mapFailure (.replacingNul substitute) =
      Direct.follow (evaluator.replacingNul substitute room) result := by
  cases result <;> rfl

theorem Failure.replacingNul_ofStep (failure : Failure) :
    (failure.ofStep).replacingNul substitute = (failure.replacingNul substitute).ofStep := by
  cases failure with
  | error error => rfl
  | fault met => cases met <;> rfl

namespace Operations

/-- **An evaluation fails with the error where it failed with the fault, and is the same in all
else.** -/
theorem evaluate_refusing (files : FileTree) (fuel : Nat) :
    (refusing substitute).evaluate files fuel =
      Evaluator.replacingNul substitute (Lisp.evaluate files fuel) := by
  induction fuel with
  | zero => rfl
  | succ fuel ih =>
    funext room form frame
    have stepped := @step_replacingNul substitute (Lisp.evaluate files fuel) room files form frame
    have both : Failure.replacingNul substitute ∘ Failure.ofStep =
        Failure.ofStep ∘ Failure.replacingNul substitute :=
      funext Failure.replacingNul_ofStep
    rw [Operations.evaluate_succ, ih, ← stepped]
    change _ = Action.mapFailure _ (Lisp.evaluate files (fuel + 1) room form frame)
    rw [Lisp.evaluate_succ, Action.mapFailure_bind, Action.mapFailure_mapFailure,
      Action.mapFailure_mapFailure, both]
    exact congrArg _ (funext fun result => (Direct.follow_replacingNul _ room result).symm)

theorem evaluateForms_refusing (host : Host) (frame : FrameId) (last : Value)
    (forms : List Value) :
    (refusing substitute).evaluateForms host frame last forms =
      (host.evaluateForms frame last forms).mapFailure (.replacingNul substitute) := by
  induction forms generalizing last with
  | nil => rfl
  | cons form rest ih =>
    simp only [evaluateForms, Host.evaluateForms, Action.mapFailure_bind, evaluate_refusing, ih]
    rfl

theorem evaluateSource_refusing (host : Host) (frame : FrameId) (source : String) :
    (refusing substitute).evaluateSource host frame source =
      (host.evaluateSource frame source).mapFailure (.replacingNul substitute) := by
  have read : Gives host.room.Meets Anything (readProgram host.room source) := by
    cases reads : readProgram host.room source with
    | ok forms => trivial
    | error failure =>
      obtain ⟨error, rfl, _⟩ := readProgram_fails reads
      trivial
  simp only [evaluateSource, Host.evaluateSource, Action.mapFailure_bind,
    Action.replacingNul_ofExcept read, evaluateForms_refusing]

end Operations

end Lisp
