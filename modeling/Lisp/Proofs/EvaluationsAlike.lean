import Lisp.Proofs.SideBySide

/-!
# Evaluations side by side

Evaluating an ordinary form and evaluating the form under new names, in a world that follows
the other, are alike: each step is, when the evaluators of inner forms are
(`Renaming.alike_step`), and so is the whole evaluation (`Renaming.alike_evaluate`).

The first of the two evaluations may be one with other native operations, if these do on
ordinary arguments what the native operations do (`Operations.Agree`).
-/

set_option autoImplicit false

namespace Lisp

/-- Whether native operations do on ordinary arguments what they are there for. -/
def Operations.Agree (operations : Operations) : Prop :=
  ∀ operation files evaluator room root arguments world,
    (∀ argument ∈ arguments, argument.IsOrdinary world.extent) →
      operations operation files evaluator room root arguments world =
        Builtin.call operation files evaluator room root arguments world

theorem Operations.agree_call : Operations.Agree Builtin.call :=
  fun _ _ _ _ _ _ _ _ => rfl

/-! ## Forms under other names -/

section Forms

variable (naming : Renaming)

@[simp]
theorem Value.rename_eq_symbol_iff {value : Value} {name : String} :
    value.rename naming = .symbol name ↔ value = .symbol name := by
  cases value <;> simp [rename]

@[simp]
theorem specialForm?_rename (head : Value) :
    specialForm? (head.rename naming) = specialForm? head := by
  cases head <;> simp only [Value.rename, specialForm?]

@[simp]
theorem names?_rename (items : List Value) :
    SpecialForm.names? (items.map (Value.rename naming)) = SpecialForm.names? items := by
  induction items with
  | nil => rfl
  | cons item rest ih =>
    cases item <;> simp [Value.rename, SpecialForm.names?, ih]

end Forms

theorem isReadableName_of_names? {extent : Extent} {items : List Value} {names : List String}
    (each : ∀ item ∈ items, item.IsOrdinary extent) (all : SpecialForm.names? items = some names) :
    ∀ name ∈ names, IsReadableName name := by
  induction items generalizing names with
  | nil =>
    cases all
    exact List.forall_mem_nil _
  | cons item rest ih =>
    obtain ⟨first, others⟩ := List.forall_mem_cons.1 each
    cases first with
    | symbol readable =>
      obtain ⟨names', further, rfl⟩ := Option.map_eq_some_iff.1 all
      exact List.forall_mem_cons.2 ⟨readable, ih others further⟩
    | _ => cases all

namespace SpecialForm

variable {evaluator : Evaluator} {room : Room} {frame : FrameId} {operands : List Value}

theorem performDefine_of_length (wrong : operands.length ≠ 2) :
    performDefine evaluator room frame operands = Action.throw .definitionArity := by
  unfold performDefine
  split
  · exact absurd rfl wrong
  · exact absurd rfl wrong
  · rfl

theorem performBind_of_length (wrong : operands.length ≠ 2) :
    performBind evaluator room frame operands = Action.throw .bindingArity := by
  unfold performBind
  split
  · exact absurd rfl wrong
  · exact absurd rfl wrong
  · rfl

end SpecialForm

namespace Renaming

variable {naming : Renaming} {extent : Extent} {evaluator evaluator' : Evaluator} {room : Room}

/-- Whether two evaluators do with ordinary forms, and with these under new names, what is
alike. -/
def EvaluateAlike (naming : Renaming) (evaluator evaluator' : Evaluator) : Prop :=
  ∀ (extent : Extent) (room : Room) (form : Value) (frame : FrameId), form.IsOrdinary extent →
    frame < extent.frames → naming.Alike extent naming.values (evaluator room form frame)
      (evaluator' room (form.rename naming) (naming.frame frame))

section Inner

variable (alike : naming.EvaluateAlike evaluator evaluator')
variable {frame : FrameId} (inside : frame < extent.frames)
include alike inside

theorem alike_nested (cost : Nat) {form : Value} (ordinary : form.IsOrdinary extent) :
    naming.Alike extent naming.values (evaluator.nested cost room form frame)
      (evaluator'.nested cost room (form.rename naming) (naming.frame frame)) := by
  unfold Evaluator.nested
  cases room.enter? cost with
  | some inner => exact alike extent inner form frame ordinary inside
  | none => exact alike_fail _ (.inl rfl)

theorem alike_allOnto {forms values : List Value} (each : ∀ form ∈ forms, form.IsOrdinary extent)
    (before : ∀ value ∈ values, value.IsOrdinary extent) :
    naming.Alike extent naming.lists (evaluator.allOnto room frame values forms)
      (evaluator'.allOnto room (naming.frame frame) (values.map (Value.rename naming))
        (forms.map (Value.rename naming))) := by
  induction forms generalizing extent values with
  | nil =>
    refine alike_pure fun later more => ⟨fun value member => ?_, List.map_reverse.symm⟩
    exact (before value (List.mem_reverse.1 member)).mono more
  | cons form rest ih =>
    obtain ⟨first, others⟩ := List.forall_mem_cons.1 each
    refine (alike_nested alike inside _ first).bind ?_
    rintro later more value _ ⟨ordinary, rfl⟩
    refine ih (Nat.lt_of_lt_of_le inside more.1) (fun form member => (others form member).mono more) ?_
    exact List.forall_mem_cons.2 ⟨ordinary, fun value member => (before value member).mono more⟩

/-! ### Special forms -/

theorem alike_performDefine {operands : List Value}
    (each : ∀ operand ∈ operands, operand.IsOrdinary extent) :
    naming.Alike extent naming.steps (SpecialForm.performDefine evaluator room frame operands)
      (SpecialForm.performDefine evaluator' room (naming.frame frame)
        (operands.map (Value.rename naming))) := by
  by_cases pair : operands.length = 2
  · obtain ⟨name, form, rfl⟩ := List.length_eq_two.1 pair
    obtain ⟨first, others⟩ := List.forall_mem_cons.1 each
    cases name with
    | symbol name =>
      refine (alike_nested alike inside _ (others form (by simp))).bind ?_
      rintro later more value _ ⟨ordinary, rfl⟩
      refine (alike_define (Nat.lt_of_lt_of_le inside more.1) first.readable ordinary).bind ?_
      exact fun later more _ _ _ => alike_done (ordinary.mono more)
    | _ => exact alike_throwShowing _ _ _ .definitionName fun _ => trivial
  · rw [SpecialForm.performDefine_of_length pair,
      SpecialForm.performDefine_of_length (by rwa [List.length_map])]
    exact alike_throw _ .definitionArity trivial

theorem alike_bindPairs {bindings : List Value}
    (each : ∀ item ∈ bindings, item.IsOrdinary extent) :
    naming.Alike extent anyResults (SpecialForm.bindPairs evaluator room frame bindings)
      (SpecialForm.bindPairs evaluator' room (naming.frame frame)
        (bindings.map (Value.rename naming))) := by
  fun_induction SpecialForm.bindPairs evaluator room frame bindings generalizing extent with
  | case1 name form rest ih =>
    obtain ⟨symbol, others⟩ := List.forall_mem_cons.1 each
    obtain ⟨one, further⟩ := List.forall_mem_cons.1 others
    simp only [List.map_cons, Value.rename, SpecialForm.bindPairs]
    refine (alike_nested alike inside _ one).bind ?_
    rintro later more value _ ⟨ordinary, rfl⟩
    have inside' := Nat.lt_of_lt_of_le inside more.1
    refine (alike_define inside' symbol.readable ordinary).bind fun last most _ _ _ => ?_
    refine ih (Nat.lt_of_lt_of_le inside' most.1) fun item member => ?_
    exact (further item member).mono (le_trans more most)
  | case2 other second rest notSymbol =>
    rw [List.map_cons, List.map_cons, SpecialForm.bindPairs]
    · exact alike_throwShowing _ _ _ .bindingName fun _ => trivial
    · simpa using notSymbol
  | case3 bindings noName noPair =>
    rcases bindings with - | ⟨item, - | ⟨second, rest⟩⟩
    · exact alike_pure fun _ _ => trivial
    · rw [List.map_cons, List.map_nil, SpecialForm.bindPairs] <;>
        first | exact alike_pure fun _ _ => trivial | simp
    · exact absurd rfl (noPair _ _ _)

omit inside in
theorem alike_performBind {operands : List Value}
    (each : ∀ operand ∈ operands, operand.IsOrdinary extent) :
    naming.Alike extent naming.steps (SpecialForm.performBind evaluator room frame operands)
      (SpecialForm.performBind evaluator' room (naming.frame frame)
        (operands.map (Value.rename naming))) := by
  by_cases pair : operands.length = 2
  · obtain ⟨bindings, body, rfl⟩ := List.length_eq_two.1 pair
    obtain ⟨first, others⟩ := List.forall_mem_cons.1 each
    cases bindings with
    | list bindings =>
      simp only [List.map_cons, List.map_nil, Value.rename_list, SpecialForm.performBind,
        List.length_map]
      split
      · refine (alike_newFrame (some frame)).bind ?_
        rintro later more inner _ ⟨inner_inside, rfl⟩
        have items := fun item member => (first.items item member).mono more
        refine (alike_bindPairs alike inner_inside items).bind fun last most _ _ _ => ?_
        exact alike_tail ((others body (by simp)).mono (le_trans more most))
          (Nat.lt_of_lt_of_le inner_inside most.1)
      · exact alike_throw _ .bindingPairs trivial
    | _ => exact alike_throw _ .bindingPairs trivial
  · rw [SpecialForm.performBind_of_length pair,
      SpecialForm.performBind_of_length (by rwa [List.length_map])]
    exact alike_throw _ .bindingArity trivial

theorem alike_performSequence {operands : List Value}
    (each : ∀ operand ∈ operands, operand.IsOrdinary extent) :
    naming.Alike extent naming.steps (SpecialForm.performSequence evaluator room frame operands)
      (SpecialForm.performSequence evaluator' room (naming.frame frame)
        (operands.map (Value.rename naming))) := by
  fun_induction SpecialForm.performSequence evaluator room frame operands generalizing extent with
  | case1 => exact alike_done .nil
  | case2 last => exact alike_tail (each last (by simp)) inside
  | case3 form rest more ih =>
    obtain ⟨first, others⟩ := List.forall_mem_cons.1 each
    rw [List.map_cons, SpecialForm.performSequence]
    · refine (alike_nested alike inside _ first).bind fun later more _ _ _ => ?_
      exact ih (Nat.lt_of_lt_of_le inside more.1) fun operand member => (others operand member).mono more
    · simpa using more

omit alike in
/-- The branch of an `if` is chosen by what does not depend on names. -/
theorem alike_branch (condition : Value) {whenTrue : Value} (ordinary : whenTrue.IsOrdinary extent)
    (whenFalse? : Option Value)
    (ordinary' : ∀ whenFalse ∈ whenFalse?, whenFalse.IsOrdinary extent) :
    naming.Alike extent naming.steps
      (pure (SpecialForm.branch frame condition whenTrue whenFalse?))
      (pure (SpecialForm.branch (naming.frame frame) (condition.rename naming)
        (whenTrue.rename naming) (whenFalse?.map (Value.rename naming)))) := by
  unfold SpecialForm.branch
  rw [Value.isTruthy_rename]
  split
  · exact alike_tail ordinary inside
  · cases whenFalse? with
    | none => exact alike_done .nil
    | some whenFalse => exact alike_tail (ordinary' whenFalse rfl) inside

theorem alike_performChoose {operands : List Value}
    (each : ∀ operand ∈ operands, operand.IsOrdinary extent) :
    naming.Alike extent naming.steps (SpecialForm.performChoose evaluator room frame operands)
      (SpecialForm.performChoose evaluator' room (naming.frame frame)
        (operands.map (Value.rename naming))) := by
  match operands, each with
  | [condition, whenTrue], each =>
    obtain ⟨first, others⟩ := List.forall_mem_cons.1 each
    refine (alike_nested alike inside _ first).bind ?_
    rintro later more value _ ⟨_, rfl⟩
    exact alike_branch (Nat.lt_of_lt_of_le inside more.1) value
      ((others whenTrue (by simp)).mono more) none nofun
  | [condition, whenTrue, whenFalse], each =>
    obtain ⟨first, others⟩ := List.forall_mem_cons.1 each
    refine (alike_nested alike inside _ first).bind ?_
    rintro later more value _ ⟨_, rfl⟩
    refine alike_branch (Nat.lt_of_lt_of_le inside more.1) value
      ((others whenTrue (by simp)).mono more) (some whenFalse) ?_
    rintro _ ⟨⟩
    exact (others whenFalse (by simp)).mono more
  | [], _ | [_], _ | _ :: _ :: _ :: _ :: _, _ => exact alike_throw _ .conditionalArity trivial

end Inner

theorem alike_performFunction {frame : FrameId} (inside : frame < extent.frames)
    {operands : List Value} (each : ∀ operand ∈ operands, operand.IsOrdinary extent) :
    naming.Alike extent naming.steps (SpecialForm.performFunction room frame operands)
      (SpecialForm.performFunction room (naming.frame frame)
        (operands.map (Value.rename naming))) := by
  match operands, each with
  | [parameters, body], each =>
    obtain ⟨first, others⟩ := List.forall_mem_cons.1 each
    have refused : ∀ value : Value, naming.Alike extent naming.steps
        (Action.throwShowing room value .parameters)
        (Action.throwShowing room (value.rename naming) .parameters) :=
      fun value => alike_throwShowing _ room value .parameters fun _ => trivial
    cases parameters with
    | list items =>
      simp only [List.map_cons, List.map_nil, Value.rename_list, SpecialForm.performFunction,
        names?_rename]
      cases all : SpecialForm.names? items with
      | some names =>
        have readable := isReadableName_of_names? first.items all
        refine (alike_newClosure readable (others body (by simp)) inside).bind ?_
        rintro later more value _ ⟨ordinary, rfl⟩
        exact alike_done ordinary
      | none =>
        rw [← Value.rename_list]
        exact refused (.list items)
    | _ => exact refused _
  | [], _ | [_], _ | _ :: _ :: _ :: _, _ => exact alike_throw _ .functionArity trivial

/-! ### Application and steps -/

section Inner

variable (alike : naming.EvaluateAlike evaluator evaluator')
include alike

theorem alike_perform (form : SpecialForm) {frame : FrameId} (inside : frame < extent.frames)
    {operands : List Value} (each : ∀ operand ∈ operands, operand.IsOrdinary extent) :
    naming.Alike extent naming.steps (form.perform evaluator room frame operands)
      (form.perform evaluator' room (naming.frame frame) (operands.map (Value.rename naming))) := by
  cases form with
  | define => exact alike_performDefine alike inside each
  | bind => exact alike_performBind alike each
  | sequence => exact alike_performSequence alike inside each
  | choose => exact alike_performChoose alike inside each
  | function => exact alike_performFunction inside each

/-- **The same call of a native operation.** -/
theorem alike_call (operation : Builtin) (files : FileTree) {root : FrameId}
    (inside : root < extent.frames) {arguments : List Value}
    (each : ∀ argument ∈ arguments, argument.IsOrdinary extent) :
    naming.Alike extent naming.values (operation.call files evaluator room root arguments)
      (operation.call files evaluator' room (naming.frame root)
        (arguments.map (Value.rename naming))) := by
  cases operation with
  | add =>
    exact ((respects_numbers .add).bind fun _ doubles =>
      gives_numeric (Number.exists_sum? doubles)).alike each
  | multiply =>
    exact ((respects_numbers .multiply).bind fun _ doubles =>
      gives_numeric (Number.exists_product? doubles)).alike each
  | subtract => exact respects_difference.alike each
  | divide => exact respects_quotient.alike each
  | less | lessOrEqual | greater | greaterOrEqual => exact (respects_ordered _ _).alike each
  | equal => exact (respects_same room).alike each
  | list =>
    rw [Builtin.call, Builtin.call, ← Value.rename_list]
    exact alike_value (.list each)
  | isList => exact respects_isListValue.alike each
  | isEmpty =>
    exact (respects_listArgument .isEmpty (fun _ => by simp) fun _ => .boolean _).alike each
  | count => exact (respects_listArgument .count (fun _ => by simp) fun _ => .double _).alike each
  | printLine =>
    obtain ⟨same, gives⟩ := (respects_line room : naming.Respects extent _ _) arguments each
    simp only [Builtin.call, same]
    refine (alike_text gives).bind ?_
    rintro later more _ text rfl
    exact (alike_write text).bind fun _ _ _ _ _ => alike_value .nil
  | concatenate =>
    exact (respects_joined room).alike each
  | readFile => exact (respects_fileText files).alike each
  | readText => exact (respects_formOfText room).alike each
  | evaluate =>
    simp only [Builtin.call, Builtin.evaluateIn]
    rcases arguments with - | ⟨form, - | ⟨second, rest⟩⟩
    · exact alike_fail _ trivial
    · exact alike_nested alike inside _ (each form (by simp))
    · simp only [List.map_cons, Builtin.onlyArgument, List.length_cons, List.length_map]
      exact alike_fail _ trivial

omit alike in
theorem alike_applyClosure {parameters : List String}
    (readable : ∀ parameter ∈ parameters, IsReadableName parameter) {body : Value}
    (ordinary : body.IsOrdinary extent) (frame : FrameId) {arguments : List Value}
    (each : ∀ argument ∈ arguments, argument.IsOrdinary extent) :
    naming.Alike extent naming.steps (applyClosure parameters body frame arguments)
      (applyClosure parameters (body.rename naming) (naming.frame frame)
        (arguments.map (Value.rename naming))) := by
  unfold applyClosure
  rw [List.length_map]
  split
  · refine (alike_newFrame (some frame)).bind ?_
    rintro later more inner _ ⟨inside, rfl⟩
    have bound : ∀ binding ∈ parameters.zip arguments,
        IsReadableName binding.1 ∧ binding.2.IsOrdinary later := by
      intro binding member
      obtain ⟨parameter, argument⟩ := List.of_mem_zip member
      exact ⟨readable _ parameter, (each _ argument).mono more⟩
    rw [List.zip_map_right]
    refine (alike_defineAll inside bound).bind fun last most _ _ _ => ?_
    exact alike_tail (ordinary.mono (le_trans more most)) (Nat.lt_of_lt_of_le inside most.1)
  · exact alike_throw _ (.closureArity _ _ _) trivial

variable {operations : Operations} (agree : operations.Agree)
include agree

/-- Ordinary arguments are all that native operations are called on. -/
theorem alike_operations (operation : Builtin) (files : FileTree) {root : FrameId}
    (inside : root < extent.frames) {arguments : List Value}
    (each : ∀ argument ∈ arguments, argument.IsOrdinary extent) :
    naming.Alike extent naming.values (operations operation files evaluator room root arguments)
      (operation.call files evaluator' room (naming.frame root)
        (arguments.map (Value.rename naming))) := by
  intro world world' follows enough
  rw [agree _ _ _ _ _ _ _ fun argument member => (each argument member).mono enough]
  exact alike_call alike operation files inside each world world' follows enough

theorem alike_apply (files : FileTree) {head : Value} (ordinary : head.IsOrdinary extent)
    {arguments : List Value} (each : ∀ argument ∈ arguments, argument.IsOrdinary extent) :
    naming.Alike extent naming.steps (operations.apply files evaluator room head arguments)
      (apply files evaluator' room (head.rename naming) (arguments.map (Value.rename naming))) := by
  have refused : ∀ value : Value, value.IsOrdinary extent → naming.Alike extent naming.steps
      (Action.ofExcept (value.render .readable room) >>= fun text =>
        Action.throw (.notCallable text))
      (Action.ofExcept ((value.rename naming).render .readable room) >>= fun text =>
        Action.throw (.notCallable text)) := by
    intro value ordinary
    rw [Value.render_rename]
    refine (alike_text (ordinary.gives_render .readable room)).bind ?_
    rintro later more _ text rfl
    exact alike_throw _ (.notCallable text) trivial
  cases ordinary with
  | closure known readable body there =>
    rw [Value.rename]
    exact alike_applyClosure readable body _ each
  | native there =>
    rw [Value.rename]
    refine (alike_operations alike agree _ files there each).bind ?_
    rintro later more value _ ⟨ordinary, rfl⟩
    exact alike_done ordinary
  | symbol readable => exact refused _ (.symbol readable)
  | list items => exact refused _ (.list items)
  | _ => exact refused _ (by constructor)

theorem alike_applyItems (files : FileTree) {frame : FrameId} (inside : frame < extent.frames)
    {items : List Value} (each : ∀ item ∈ items, item.IsOrdinary extent) :
    naming.Alike extent naming.steps (operations.applyItems files evaluator room frame items)
      (applyItems files evaluator' room (naming.frame frame) (items.map (Value.rename naming))) := by
  refine (alike_allOnto alike inside each (List.forall_mem_nil _)).bind ?_
  rintro later more values _ ⟨ordinary, rfl⟩
  cases values with
  | nil => exact alike_done (.list (List.forall_mem_nil _))
  | cons head arguments =>
    obtain ⟨first, others⟩ := List.forall_mem_cons.1 ordinary
    exact alike_apply alike agree files first others

/-- **The same step, when the evaluators of inner forms do the same.** -/
theorem alike_step (files : FileTree) {form : Value} (ordinary : form.IsOrdinary extent)
    {frame : FrameId} (inside : frame < extent.frames) :
    naming.Alike extent naming.steps (operations.step files evaluator room form frame)
      (step files evaluator' room (form.rename naming) (naming.frame frame)) := by
  have itself : naming.Alike extent naming.steps (pure (.done form))
      (pure (.done (form.rename naming))) := alike_done ordinary
  cases form with
  | symbol name =>
    simp only [Value.rename]
    refine (alike_lookup frame name).bind ?_
    rintro later more value _ ⟨ordinary, rfl⟩
    exact alike_done ordinary
  | list items =>
    cases items with
    | nil => exact itself
    | cons head operands =>
      rw [Value.rename_list, List.map_cons, step, Operations.step, specialForm?_rename]
      cases specialForm? head with
      | some special =>
        exact alike_perform alike special inside (List.forall_mem_cons.1 ordinary.items).2
      | none => exact alike_applyItems alike agree files inside ordinary.items
  | _ => exact itself

end Inner

/-! ### Evaluation -/

/-- **Evaluating an ordinary form, and evaluating it under new names, are alike**, and native
operations are called on ordinary arguments only. -/
theorem alike_evaluate (naming : Renaming) {operations : Operations} (agree : operations.Agree)
    (files : FileTree) (fuel : Nat) :
    naming.EvaluateAlike (operations.evaluate files fuel) (evaluate files fuel) := by
  induction fuel with
  | zero => exact fun _ _ _ _ _ _ _ _ _ _ => .outOfFuel
  | succ fuel ih =>
    intro extent room form frame ordinary inside world world' follows enough
    have stepped : naming.EndsAlike naming.steps world world'
        (operations.step files (operations.evaluate files fuel) room form frame world)
        (step files (evaluate files fuel) room (form.rename naming) (naming.frame frame) world') :=
      alike_step ih agree files ordinary inside world world' follows enough
    rw [Operations.evaluate, evaluate]
    revert stepped
    generalize operations.step files (operations.evaluate files fuel) room form frame world = outcome
    generalize step files (evaluate files fuel) room (form.rename naming) (naming.frame frame)
      world' = outcome'
    intro stepped
    cases stepped with
    | @finished result result' after after' reaches related =>
      rcases result with value | ⟨form, frame⟩ <;> rcases result' with value' | ⟨form', frame'⟩
      · exact .finished reaches related
      · exact related.elim
      · exact related.elim
      · obtain ⟨⟨ordinary, rfl⟩, inside, rfl⟩ := related
        exact reaches.endsAlike
          (ih after.extent room form frame ordinary inside after after' reaches.follows (le_refl _))
    | @failed failure after after' reaches ordinary =>
      cases failure with
      | error error => exact .failed reaches ordinary
      | fault fault =>
        rcases ordinary with rfl | rfl
        · exact .failed reaches trivial
        · exact .failed reaches (.inr rfl)
    | outOfFuel => exact .outOfFuel

end Renaming

end Lisp
