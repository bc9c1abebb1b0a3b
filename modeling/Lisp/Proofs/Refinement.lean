import Lisp.Proofs.Direct

/-!
# Evaluation by steps refines plain recursion

However an evaluation ends, with a value or with an error, the direct evaluator ends
in the same way, with the same heap and the same output, and the other way round.

The direct evaluator shows in which order things happen.  The items of an application
are evaluated one after the other, each once, before the first value is asked whether
it can be applied to the others (`ends_each_iff`).  A list headed by the name of a
special form is that form: its operands are all that matters.
-/

set_option autoImplicit false

namespace Lisp

/-! ## How evaluations end -/

section Endings

variable (files : FileTree)

theorem stable_direct (form : Value) (frame : FrameId) :
    Stable fun fuel => direct files fuel form frame := by
  intro fuel fuel' less
  dsimp only
  rw [← evaluate_eq_direct, ← evaluate_eq_direct]
  exact stable_evaluate files .unlimited form frame fuel fuel' less

theorem stable_each (frame : FrameId) (forms : List Value) :
    Stable fun fuel => Direct.each (direct files fuel) frame forms := by
  induction forms with
  | nil => exact stable_const _
  | cons form rest ih =>
    exact (stable_direct files form frame).bind fun value => ih.bind fun _ => stable_const _

/-- How an evaluation with unlimited room ends. -/
abbrev EvaluationEnds (form : Value) (frame : FrameId) (world : World) (outcome : Outcome Value) :
    Prop :=
  Ends (fun fuel => evaluate files fuel .unlimited form frame) world outcome

/-- How the evaluation of forms ends that are evaluated one after the other, each once:
the first that fails ends it, and else the values are held in the order of the forms. -/
inductive EachEnds (frame : FrameId) : List Value → World → Outcome (List Value) → Prop where
  | none (world : World) : EachEnds frame [] world (.finished [] world)
  | first_failed {form : Value} {rest : List Value} {world after : World} {failure : Failure} :
      EvaluationEnds files form frame world (.failed failure after) →
        EachEnds frame (form :: rest) world (.failed failure after)
  | later_failed {form value : Value} {rest : List Value} {world between after : World}
      {failure : Failure} :
      EvaluationEnds files form frame world (.finished value between) →
        EachEnds frame rest between (.failed failure after) →
          EachEnds frame (form :: rest) world (.failed failure after)
  | finished {form value : Value} {rest values : List Value} {world between after : World} :
      EvaluationEnds files form frame world (.finished value between) →
        EachEnds frame rest between (.finished values after) →
          EachEnds frame (form :: rest) world (.finished (value :: values) after)

theorem evaluationEnds_iff (form : Value) (frame : FrameId) (world : World)
    (outcome : Outcome Value) :
    EvaluationEnds files form frame world outcome ↔
      Ends (fun fuel => direct files fuel form frame) world outcome := by
  simp only [EvaluationEnds, evaluate_eq_direct]

/-- **The direct evaluator takes the forms one after the other, and each just once.** -/
theorem ends_each_iff (frame : FrameId) (forms : List Value) (world : World)
    (outcome : Outcome (List Value)) :
    Ends (fun fuel => Direct.each (direct files fuel) frame forms) world outcome ↔
      EachEnds files frame forms world outcome := by
  induction forms generalizing world outcome with
  | nil =>
    simp only [Direct.each, ends_const_iff, Action.pure_apply]
    constructor
    · rintro ⟨_, rfl⟩
      exact .none world
    · intro ends
      cases ends
      exact ⟨by simp, rfl⟩
  | cons form rest ih =>
    have stable_rest : ∀ value : Value, Stable fun fuel =>
        Direct.each (direct files fuel) frame rest >>= fun values => pure (value :: values) :=
      fun value => (stable_each files frame rest).bind fun _ => stable_const _
    simp only [Direct.each]
    rw [ends_bind_iff (stable_direct files form frame) stable_rest]
    simp only [← evaluationEnds_iff, ends_bind_pure_iff (stable_each files frame rest), ih]
    constructor
    · rintro (⟨failure, after, first, rfl⟩ | ⟨value, between, first, ends⟩)
      · exact .first_failed first
      · rcases ends with ⟨failure, after, others, rfl⟩ | ⟨values, after, others, rfl⟩
        · exact .later_failed first others
        · exact .finished first others
    · intro ends
      cases ends with
      | first_failed first => exact .inl ⟨_, _, first, rfl⟩
      | later_failed first others => exact .inr ⟨_, _, first, .inl ⟨_, _, others, rfl⟩⟩
      | finished first others => exact .inr ⟨_, _, first, .inr ⟨_, _, others, rfl⟩⟩

theorem stable_application (head : Value) (arguments : List Value) :
    Stable fun fuel => Direct.application files (direct files fuel) head arguments := by
  have applied : ∀ fuel, Direct.application files (direct files fuel) head arguments =
      apply files (evaluate files fuel) .unlimited head arguments >>=
        Direct.follow (direct files fuel) := by
    intro fuel
    have follows := Direct.apply_bind_follow (evaluate files fuel) files head arguments
    rw [evaluate_eq_direct] at follows
    exact follows.symm
  intro fuel fuel' less
  simp only [applied]
  refine (apply_refines (evaluate_refines files less) files .unlimited head arguments).bind
    fun result => ?_
  cases result with
  | done value => exact Action.Refines.refl _
  | tail form frame => exact stable_direct files form frame fuel fuel' less

/-- An application ends with the first failure of its items, or as its first value does
with the others as arguments. -/
theorem ends_application_iff (head : Value) (operands : List Value) (frame : FrameId)
    (world : World) (outcome : Outcome Value) :
    Ends (fun fuel => do
        let function ← direct files fuel head frame
        let arguments ← Direct.each (direct files fuel) frame operands
        Direct.application files (direct files fuel) function arguments) world outcome ↔
      (∃ failure after, EvaluationEnds files head frame world (.failed failure after) ∧
        outcome = .failed failure after) ∨
      ∃ function between, EvaluationEnds files head frame world (.finished function between) ∧
        ((∃ failure after, EachEnds files frame operands between (.failed failure after) ∧
          outcome = .failed failure after) ∨
        ∃ arguments after, EachEnds files frame operands between (.finished arguments after) ∧
          Ends (fun fuel => Direct.application files (direct files fuel) function arguments)
            after outcome) := by
  have stable_others : ∀ function, Stable fun fuel =>
      Direct.each (direct files fuel) frame operands >>=
        Direct.application files (direct files fuel) function :=
    fun function => (stable_each files frame operands).bind (stable_application files function)
  rw [ends_bind_iff (stable_direct files head frame) stable_others]
  simp only [← evaluationEnds_iff, ends_each_iff,
    ends_bind_iff (stable_each files frame operands) (stable_application files _)]

/-- The first fuel that an evaluation needs is used up by the form itself. -/
theorem ends_direct_iff (form : Value) (frame : FrameId) (world : World)
    (outcome : Outcome Value) :
    Ends (fun fuel => direct files fuel form frame) world outcome ↔
      Ends (fun fuel => direct files (fuel + 1) form frame) world outcome := by
  constructor
  · rintro ⟨some_way, fuel, ended⟩
    cases fuel with
    | zero => exact absurd ended.symm some_way
    | succ fuel => exact ⟨some_way, fuel, ended⟩
  · rintro ⟨some_way, fuel, ended⟩
    exact ⟨some_way, fuel + 1, ended⟩

/-- **Evaluation by steps ends as plain recursion does, with the same value or error, the
same heap and the same output.**  An application evaluates its items from left to right,
each once, before it looks at the first value; and a list headed by the name of a
special form is that form in every world, whatever the name is bound to there. -/
theorem evaluation_refines_recursion (form : Value) (frame : FrameId) (world : World)
    (outcome : Outcome Value) :
    (EvaluationEnds files form frame world outcome ↔
      Ends (fun fuel => direct files fuel form frame) world outcome) ∧
    (∀ head operands, form = .list (head :: operands) → specialForm? head = none →
      (EvaluationEnds files form frame world outcome ↔
        (∃ failure after, EachEnds files frame (head :: operands) world (.failed failure after) ∧
          outcome = .failed failure after) ∨
        ∃ function arguments between,
          EachEnds files frame (head :: operands) world
            (.finished (function :: arguments) between) ∧
          Ends (fun fuel => Direct.application files (direct files fuel) function arguments)
            between outcome)) ∧
    ∀ (special : SpecialForm) (operands : List Value),
      form = .list (.symbol special.name :: operands) →
        (EvaluationEnds files form frame world outcome ↔
          Ends (fun fuel => Direct.special special (direct files fuel) frame operands)
            world outcome) := by
  refine ⟨evaluationEnds_iff files form frame world outcome, ?_, ?_⟩
  · rintro head operands rfl application
    rw [evaluationEnds_iff, ends_direct_iff]
    simp only [direct, application]
    rw [ends_application_iff]
    constructor
    · rintro (⟨failure, after, first, rfl⟩ | ⟨function, between, first, ends⟩)
      · exact .inl ⟨failure, after, .first_failed first, rfl⟩
      · rcases ends with ⟨failure, after, others, rfl⟩ | ⟨arguments, after, others, applied⟩
        · exact .inl ⟨failure, after, .later_failed first others, rfl⟩
        · exact .inr ⟨function, arguments, after, .finished first others, applied⟩
    · rintro (⟨failure, after, ends, rfl⟩ | ⟨function, arguments, after, ends, applied⟩)
      · cases ends with
        | first_failed first => exact .inl ⟨failure, after, first, rfl⟩
        | later_failed first others => exact .inr ⟨_, _, first, .inl ⟨failure, after, others, rfl⟩⟩
      · cases ends with
        | finished first others => exact .inr ⟨_, _, first, .inr ⟨_, _, others, applied⟩⟩
  · rintro special operands rfl
    have isSpecial : specialForm? (.symbol special.name) = some special := by
      cases special <;> rfl
    rw [evaluationEnds_iff, ends_direct_iff]
    simp only [direct, isSpecial]

end Endings

end Lisp
