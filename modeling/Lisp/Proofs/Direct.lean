import Lisp.Proofs.Invariants

/-!
# Evaluation by plain recursion

The direct evaluator has no steps and no tails: the branch of an `if`, the last form
of a `do`, the body of a `let*` and the body of a closure are evaluated by the same
recursion as every inner form, and nothing is ever too deep.

With unlimited room, evaluating by steps is evaluating directly
(`evaluate_eq_direct`): following the step of each special form and of each
application is what the direct evaluator does there (`perform_bind_follow`,
`apply_bind_follow`), and no step fails for want of room.
-/

set_option autoImplicit false

namespace Lisp

/-! ## The direct evaluator -/

namespace Direct

/-- Evaluates a form in a frame by recursion. -/
abbrev Recursion := Value → FrameId → Action Value

/-- The values of forms, each evaluated once, from left to right. -/
def each (recur : Recursion) (frame : FrameId) : List Value → Action (List Value)
  | [] => pure []
  | form :: rest => do
    let value ← recur form frame
    let values ← each recur frame rest
    return value :: values

/-- `(def! name form)`. -/
def define (recur : Recursion) (frame : FrameId) : List Value → Action Value
  | [.symbol name, form] => do
    let value ← recur form frame
    Action.define frame name value
    return value
  | [other, _] => Action.throwShowing .unlimited other .definitionName
  | _ => Action.throw .definitionArity

/-- Binds the names of a `let*`, one after the other. -/
def bindEach (recur : Recursion) (inner : FrameId) : List Value → Action Unit
  | .symbol name :: form :: rest => do
    let value ← recur form inner
    Action.define inner name value
    bindEach recur inner rest
  | other :: _ :: _ => Action.throwShowing .unlimited other .bindingName
  | _ => pure ()

/-- `(let* (name form ...) body)`. -/
def bind (recur : Recursion) (frame : FrameId) : List Value → Action Value
  | [.list bindings, body] =>
    if bindings.length % 2 = 0 then do
      let inner ← Action.newFrame (some frame)
      bindEach recur inner bindings
      recur body inner
    else Action.throw .bindingPairs
  | [_, _] => Action.throw .bindingPairs
  | _ => Action.throw .bindingArity

/-- `(do form ...)`. -/
def sequence (recur : Recursion) (frame : FrameId) : List Value → Action Value
  | [] => pure .nil
  | [last] => recur last frame
  | form :: rest => do
    let _ ← recur form frame
    sequence recur frame rest

/-- `(if condition form form)`. -/
def choose (recur : Recursion) (frame : FrameId) : List Value → Action Value
  | [condition, whenTrue] => do
    if (← recur condition frame).isTruthy then recur whenTrue frame else pure .nil
  | [condition, whenTrue, whenFalse] => do
    if (← recur condition frame).isTruthy then recur whenTrue frame else recur whenFalse frame
  | _ => Action.throw .conditionalArity

/-- `(fn* (name ...) body)`. -/
def function (frame : FrameId) : List Value → Action Value
  | [.list parameters, body] =>
    match SpecialForm.names? parameters with
    | some names => Action.newClosure names body frame
    | none => Action.throwShowing .unlimited (.list parameters) .parameters
  | [other, _] => Action.throwShowing .unlimited other .parameters
  | _ => Action.throw .functionArity

/-- A special form on its operands; whatever its name is bound to plays no part. -/
def special (form : SpecialForm) (recur : Recursion) (frame : FrameId) (operands : List Value) :
    Action Value :=
  match form with
  | .define => define recur frame operands
  | .bind => bind recur frame operands
  | .sequence => sequence recur frame operands
  | .choose => choose recur frame operands
  | .function => function frame operands

/-- A value applied to arguments. -/
def application (files : FileTree) (recur : Recursion) (head : Value) (arguments : List Value) :
    Action Value :=
  match head with
  | .closure _ parameters body frame =>
    if arguments.length = parameters.length then do
      let inner ← Action.newFrame (some frame)
      Action.defineAll inner (parameters.zip arguments)
      recur body inner
    else
      Action.throw
        (.closureArity (Value.closureText parameters) parameters.length arguments.length)
  | .native operation root => operation.call files (fun _ => recur) .unlimited root arguments
  | other => do
    let text ← Action.ofExcept (other.render .readable .unlimited)
    Action.throw (.notCallable text)

end Direct

/-- Evaluates a form in a frame by plain recursion, as deep as the fuel goes. -/
def direct (files : FileTree) : Nat → Value → FrameId → Action Value
  | 0, _, _ => fun _ => .outOfFuel
  | fuel + 1, form, frame =>
    match form with
    | .symbol name => Action.lookup frame name
    | .list (head :: operands) =>
      match specialForm? head with
      | some form => Direct.special form (direct files fuel) frame operands
      | none => do
        let head ← direct files fuel head frame
        let arguments ← Direct.each (direct files fuel) frame operands
        Direct.application files (direct files fuel) head arguments
    | other => pure other

/-! ## Following a step -/

instance : LawfulMonad Action :=
  LawfulMonad.mk' Action
    (by
      intro α action
      funext world
      change Action.bind action Action.pure world = action world
      unfold Action.bind
      cases action world <;> rfl)
    (fun _ _ => rfl)
    (by
      intro α β γ action next further
      funext world
      simp only [Action.bind_apply]
      cases action world <;> rfl)

namespace Action

variable {α β : Type}

@[simp]
theorem throw_bind (error : Error) (next : α → Action β) : (throw error >>= next) = throw error :=
  rfl

@[simp]
theorem throwShowing_bind (room : Room) (value : Value) (error : String → Error)
    (next : α → Action β) :
    (throwShowing room value error >>= next) = throwShowing room value error := by
  unfold throwShowing
  split <;> rfl

end Action

namespace Direct

/-- Goes on to the end of a step. -/
def follow (recur : Recursion) : Step → Action Value
  | .done value => pure value
  | .tail form frame => recur form frame

variable (evaluator : Evaluator)

/-- With unlimited room, an inner form is evaluated as any other. -/
theorem nested_unlimited (cost : Nat) (form : Value) (frame : FrameId) :
    evaluator.nested cost .unlimited form frame = evaluator .unlimited form frame :=
  rfl

theorem bindPairs_eq (frame : FrameId) (bindings : List Value) :
    SpecialForm.bindPairs evaluator .unlimited frame bindings =
      bindEach (evaluator .unlimited) frame bindings := by
  fun_induction SpecialForm.bindPairs evaluator .unlimited frame bindings with
  | case1 name form rest ih =>
    rw [bindEach, ih]
    rfl
  | case2 other second rest notSymbol =>
    rw [bindEach]
    exact notSymbol
  | case3 bindings noName noPair =>
    rw [bindEach]
    · exact noName
    · exact noPair

theorem performSequence_bind_follow (frame : FrameId) (operands : List Value) :
    SpecialForm.performSequence evaluator .unlimited frame operands >>=
        follow (evaluator .unlimited) =
      sequence (evaluator .unlimited) frame operands := by
  fun_induction SpecialForm.performSequence evaluator .unlimited frame operands with
  | case1 => rfl
  | case2 last => rfl
  | case3 form rest more ih =>
    rw [sequence, bind_assoc]
    · simp only [ih, nested_unlimited]
    · exact more

/-- **Following a special form to its end is evaluating it directly.** -/
theorem perform_bind_follow (form : SpecialForm) (frame : FrameId) (operands : List Value) :
    form.perform evaluator .unlimited frame operands >>= follow (evaluator .unlimited) =
      special form (evaluator .unlimited) frame operands := by
  cases form with
  | define =>
    simp only [SpecialForm.perform, SpecialForm.performDefine, special]
    unfold define
    split <;> simp [follow, nested_unlimited]
  | bind =>
    simp only [SpecialForm.perform, SpecialForm.performBind, special]
    unfold bind
    split
    · next bindings body =>
      by_cases paired : bindings.length % 2 = 0
      · simp [paired, follow, bindPairs_eq]
      · simp [paired]
    · simp
    · simp
  | sequence => exact performSequence_bind_follow evaluator frame operands
  | choose =>
    simp only [SpecialForm.perform, SpecialForm.performChoose, special]
    unfold choose
    split
    · simp only [bind_assoc, pure_bind, nested_unlimited]
      congr 1
      funext value
      unfold SpecialForm.branch
      split <;> simp [follow]
    · simp only [bind_assoc, pure_bind, nested_unlimited]
      congr 1
      funext value
      unfold SpecialForm.branch
      split <;> simp [follow]
    · simp
  | function =>
    simp only [SpecialForm.perform, SpecialForm.performFunction, special]
    rcases operands with _ | ⟨parameters, _ | ⟨body, _ | ⟨third, rest⟩⟩⟩
    · rfl
    · simp [function]
    · cases parameters with
      | list items => cases names : SpecialForm.names? items <;> simp [function, names, follow]
      | _ => simp [function]
    · simp [function]

/-- **Following an application to its end is applying directly.** -/
theorem apply_bind_follow (files : FileTree) (head : Value) (arguments : List Value) :
    apply files evaluator .unlimited head arguments >>= follow (evaluator .unlimited) =
      application files (evaluator .unlimited) head arguments := by
  cases head with
  | closure identity parameters body frame =>
    simp only [apply, applyClosure, application]
    by_cases fits : arguments.length = parameters.length
    · simp [fits, follow]
    · rw [if_neg fits, if_neg fits, Action.throw_bind]
  | native operation root =>
    simp only [apply, application, bind_assoc, pure_bind, follow, bind_pure]
    cases operation <;> rfl
  | _ => simp [apply, application]

/-- The values of all items, the first and the others in turn. -/
theorem allOnto_eq (frame : FrameId) (forms values : List Value) :
    evaluator.allOnto .unlimited frame values forms =
      (do return values.reverse ++ (← each (evaluator .unlimited) frame forms)) := by
  induction forms generalizing values with
  | nil => simp [Evaluator.allOnto, each]
  | cons form rest ih => simp [Evaluator.allOnto, each, ih, nested_unlimited]

/-- **Following a step to its end is evaluating directly.** -/
theorem step_bind_follow (files : FileTree) (fuel : Nat) (form : Value) (frame : FrameId)
    (same : evaluator .unlimited = direct files fuel) :
    step files evaluator .unlimited form frame >>= follow (evaluator .unlimited) =
      direct files (fuel + 1) form frame := by
  cases form with
  | symbol name => simp [step, direct, follow]
  | list items =>
    cases items with
    | nil => simp [step, direct, follow]
    | cons head operands =>
      rw [direct, step]
      cases specialForm? head with
      | some special =>
        rw [← same]
        exact perform_bind_follow evaluator special frame operands
      | none =>
        dsimp only
        rw [← same, applyItems, Evaluator.all, allOnto_eq]
        simp [each, apply_bind_follow]
  | _ => simp [step, direct, follow]

end Direct

/-! ## Evaluation by steps -/

/-- The invariant that holds of everything. -/
def Invariant.everything : Invariant Unit where
  world _ := Anything
  value _ := Anything
  frame := Anything
  value_mono _ := id
  plain _ _ _ := trivial
  list_iff := by simp
  body _ := trivial
  root _ := trivial
  lookup _ _ := trivial
  define _ _ _ _ := trivial
  newFrame _ _ := ⟨trivial, trivial⟩
  newClosure _ _ _ _ := ⟨(), le_refl (), trivial, trivial⟩
  write _ _ := trivial

/-- With unlimited room no step fails for want of it. -/
theorem step_ne_stackExhausted (files : FileTree) (fuel : Nat) (form : Value) (frame : FrameId)
    (world after : World) :
    step files (evaluate files fuel) .unlimited form frame world ≠
      .failed (.fault .stackExhausted) after := by
  intro exhausted
  have evaluates := Invariant.everything.keeps_evaluate files fuel
  have stepped : Action.Keeps _ .unlimited _ ()
      (step files (evaluate files fuel) .unlimited form frame) :=
    Invariant.keeps_step evaluates files trivial trivial
  have allowed := stepped world trivial
  rw [exhausted] at allowed
  exact allowed.1 rfl rfl

theorem evaluate_succ_unlimited (files : FileTree) (fuel : Nat) (form : Value) (frame : FrameId) :
    evaluate files (fuel + 1) .unlimited form frame =
      step files (evaluate files fuel) .unlimited form frame >>=
        Direct.follow (evaluate files fuel .unlimited) := by
  funext world
  have roomy := step_ne_stackExhausted files fuel form frame world
  rw [evaluate, Action.bind_apply]
  cases ended : step files (evaluate files fuel) .unlimited form frame world with
  | outOfFuel => rfl
  | finished result after => cases result <;> rfl
  | failed failure after =>
    cases failure with
    | error error => rfl
    | fault fault =>
      cases fault with
      | stackExhausted => exact absurd ended (roomy after)
      | _ => rfl

/-- **With unlimited room, evaluating by steps is evaluating directly.** -/
theorem evaluate_eq_direct (files : FileTree) (fuel : Nat) :
    evaluate files fuel .unlimited = direct files fuel := by
  induction fuel with
  | zero =>
    funext form frame world
    rfl
  | succ fuel ih =>
    funext form frame
    have direct_follows := Direct.step_bind_follow (evaluate files fuel) files fuel form frame ih
    rw [← direct_follows]
    exact evaluate_succ_unlimited files fuel form frame

end Lisp
