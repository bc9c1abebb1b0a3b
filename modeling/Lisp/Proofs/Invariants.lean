import Mathlib.Order.CompleteBooleanAlgebra
import Mathlib.Order.CompletePartialOrder
import Lisp.Proofs.Fuel
import Lisp.Proofs.Results

/-!
# What every run keeps

An invariant says what stays true of the world of a run, which values can turn up in
it, and which frames it can evaluate forms in.  It has to survive what actions do to a
world: definitions, new frames, new closures and output (`Invariant`).  Then every
step of an evaluation keeps it, also when it fails (`Invariant.keeps_step`), and by
induction on the fuel so does the whole evaluation (`Invariant.keeps_evaluate`).

What is said of a world and of a value may refer to a stage that the run has come to,
and that no world shows.  A new closure may lead to a later stage, and no stage takes
back what an earlier one has said of a value.

With unlimited room nothing ever fails for want of it, so this is part of what is
kept.
-/

set_option autoImplicit false

namespace Lisp

/-! ## Actions -/

section

variable {α β Stage : Type} [Preorder Stage]

/-- Whether an action that was begun at a stage has kept a property of worlds, has given a
result with a property if it finished, and has failed only as a room allows.  Both properties
are meant as of the stage that was reached by then. -/
def Outcome.Keeps (holds : Stage → World → Prop) (room : Room) (result : Stage → α → Prop)
    (now : Stage) : Outcome α → Prop
  | .finished value after => ∃ later, now ≤ later ∧ result later value ∧ holds later after
  | .failed failure after => room.Allows failure ∧ ∃ later, now ≤ later ∧ holds later after
  | .outOfFuel => True

variable {holds : Stage → World → Prop} {room : Room} {now : Stage}

/-- What has been kept since a stage has been kept since an earlier one. -/
theorem Outcome.Keeps.of_le {result : Stage → α → Prop} {later : Stage} {outcome : Outcome α}
    (keeps : outcome.Keeps holds room result later) (more : now ≤ later) :
    outcome.Keeps holds room result now := by
  cases outcome with
  | finished value after =>
    obtain ⟨last, most, kept⟩ := keeps
    exact ⟨last, le_trans more most, kept⟩
  | failed failure after =>
    obtain ⟨allowed, last, most, kept⟩ := keeps
    exact ⟨allowed, last, le_trans more most, kept⟩
  | outOfFuel => trivial

namespace Action

/-- Whether an action keeps a property of worlds from a stage on, gives a result with a
property if it finishes, and fails only as a room allows. -/
def Keeps (holds : Stage → World → Prop) (room : Room) (result : Stage → α → Prop) (now : Stage)
    (action : Action α) : Prop :=
  ∀ world, holds now world → (action world).Keeps holds room result now

theorem keeps_pure {result : Stage → α → Prop} {value : α} (good : result now value) :
    Keeps holds room result now (pure value) :=
  fun _ before => ⟨now, le_refl now, good, before⟩

theorem keeps_fail (result : Stage → α → Prop) {failure : Failure} (allows : room.Allows failure) :
    Keeps holds room result now (fail failure) :=
  fun _ before => ⟨allows, now, le_refl now, before⟩

theorem keeps_throw (result : Stage → α → Prop) (error : Error) :
    Keeps holds room result now (throw error) :=
  keeps_fail result (room.allows_error error)

theorem Keeps.bind {result : Stage → α → Prop} {result' : Stage → β → Prop} {action : Action α}
    {next : α → Action β} (first : Keeps holds room result now action)
    (second : ∀ later, now ≤ later → ∀ value, result later value →
      Keeps holds room result' later (next value)) :
    Keeps holds room result' now (action >>= next) := by
  intro world before
  have kept := first world before
  rw [bind_apply]
  cases ended : action world with
  | finished value after =>
    rw [ended] at kept
    obtain ⟨later, more, good, between⟩ := kept
    exact (second later more value good after between).of_le more
  | failed failure after =>
    rw [ended] at kept
    exact kept
  | outOfFuel => trivial

theorem Keeps.mono {room' : Room} {result : Stage → α → Prop} {action : Action α}
    (keeps : Keeps holds room result now action)
    (fewer : ∀ failure, room.Allows failure → room'.Allows failure) :
    Keeps holds room' result now action := by
  intro world before
  have kept := keeps world before
  cases ended : action world with
  | finished value after =>
    rw [ended] at kept
    exact kept
  | failed failure after =>
    rw [ended] at kept
    exact ⟨fewer failure kept.1, kept.2⟩
  | outOfFuel => trivial

theorem keeps_ofExcept {result : Stage → α → Prop} {computation : Except Failure α}
    (gives : Gives room.Allows (result now) computation) :
    Keeps holds room result now (ofExcept computation) := by
  cases computation with
  | ok value => exact keeps_pure gives
  | error failure => exact keeps_fail result gives

theorem keeps_throwShowing (result : Stage → α → Prop) (value : Value) (error : String → Error) :
    Keeps holds room result now (throwShowing room value error) := by
  have shown := value.gives_shown room
  unfold throwShowing
  split
  · exact keeps_throw result _
  · next fault fails =>
    rw [fails] at shown
    exact keeps_fail result shown

/-- The value and the world of an action that finishes. -/
theorem Keeps.of_finished {result : Stage → α → Prop} {action : Action α}
    (keeps : Keeps holds room result now action) {world after : World} {value : α}
    (before : holds now world) (finished : action world = .finished value after) :
    ∃ later, now ≤ later ∧ result later value ∧ holds later after := by
  have kept := keeps world before
  rw [finished] at kept
  exact kept

end Action

end

/-- The world that an action leaves, if it comes to an end. -/
def Outcome.world? {α : Type} : Outcome α → Option World
  | .finished _ world | .failed _ world => some world
  | .outOfFuel => none

theorem Action.Keeps.of_world? {α Stage : Type} [Preorder Stage] {holds : Stage → World → Prop}
    {room : Room} {result : Stage → α → Prop} {now : Stage} {action : Action α}
    (keeps : Keeps holds room result now action) {world after : World} (before : holds now world)
    (left : (action world).world? = some after) : ∃ later, now ≤ later ∧ holds later after := by
  cases ended : action world with
  | finished value last =>
    rw [ended] at left
    cases left
    obtain ⟨later, more, _, kept⟩ := keeps.of_finished before ended
    exact ⟨later, more, kept⟩
  | failed failure last =>
    have kept := keeps world before
    rw [ended] at kept left
    cases left
    exact kept.2
  | outOfFuel =>
    rw [ended] at left
    cases left

/-! ## Invariants -/

/-- What stays true of a world, which values can turn up, and in which frames forms are
evaluated; with all that keeps it so. -/
structure Invariant (Stage : Type) [Preorder Stage] where
  world : Stage → World → Prop
  value : Stage → Value → Prop
  frame : FrameId → Prop
  value_mono : ∀ {now later item}, now ≤ later → value now item → value later item
  plain : ∀ (now : Stage) (item : Value), item.IsPlain → value now item
  list_iff : ∀ (now : Stage) (items : List Value),
    value now (.list items) ↔ ∀ item ∈ items, value now item
  body : ∀ {now : Stage} {identity : Nat} {parameters : List String} {body : Value}
    {place : FrameId}, value now (.closure identity parameters body place) → value now body
  /-- Forms are evaluated in the roots that native operations were registered for. -/
  root : ∀ {now place}, value now (.native .evaluate place) → frame place
  lookup : ∀ {now before place name item}, world now before →
    before.heap.lookup? place name = some item → value now item
  define : ∀ {now before place item} name, world now before → frame place → value now item →
    world now { before with heap := before.heap.define place name item }
  newFrame : ∀ {now before} outer?, world now before →
    frame before.heap.size ∧ world now { before with heap := before.heap.push outer? }
  newClosure : ∀ {now before body} parameters place, world now before → value now body →
    ∃ later, now ≤ later ∧ value later (.closure before.closures parameters body place) ∧
      world later { before with closures := before.closures + 1 }
  write : ∀ {now before} text, world now before →
    world now { before with output := before.output ++ text }

namespace Invariant

variable {Stage : Type} [Preorder Stage] (kept : Invariant Stage) {room : Room} {now : Stage}

/-- What a step can come to. -/
def stepResult (now : Stage) : Step → Prop
  | .done item => kept.value now item
  | .tail form place => kept.value now form ∧ kept.frame place

/-- Whether an evaluator keeps the invariant for the forms and frames that can turn up. -/
def Evaluates (evaluator : Evaluator) : Prop :=
  ∀ now room form place, kept.value now form → kept.frame place →
    Action.Keeps kept.world room kept.value now (evaluator room form place)

variable {kept}

theorem each_mono {later : Stage} (more : now ≤ later) {items : List Value}
    (each : ∀ item ∈ items, kept.value now item) : ∀ item ∈ items, kept.value later item :=
  fun item member => kept.value_mono more (each item member)

/-! ### Single actions -/

theorem keeps_lookup (place : FrameId) (name : String) :
    Action.Keeps kept.world room kept.value now (Action.lookup place name) := by
  intro world before
  unfold Action.lookup
  cases found : world.heap.lookup? place name with
  | some item => exact ⟨now, le_refl now, kept.lookup before found, before⟩
  | none => exact ⟨room.allows_error _, now, le_refl now, before⟩

theorem keeps_define {place : FrameId} {item : Value} (name : String) (inside : kept.frame place)
    (good : kept.value now item) :
    Action.Keeps kept.world room (fun _ => Anything) now (Action.define place name item) :=
  fun _ before => ⟨now, le_refl now, trivial, kept.define name before inside good⟩

theorem keeps_newFrame (outer? : Option FrameId) :
    Action.Keeps kept.world room (fun _ => kept.frame) now (Action.newFrame outer?) :=
  fun _ before => ⟨now, le_refl now, kept.newFrame outer? before⟩

theorem keeps_newClosure (parameters : List String) {body : Value} (place : FrameId)
    (good : kept.value now body) :
    Action.Keeps kept.world room kept.value now (Action.newClosure parameters body place) :=
  fun _ before => kept.newClosure parameters place before good

theorem keeps_defineAll {place : FrameId} (inside : kept.frame place)
    {bindings : List (String × Value)} (good : ∀ binding ∈ bindings, kept.value now binding.2) :
    Action.Keeps kept.world room (fun _ => Anything) now (Action.defineAll place bindings) := by
  induction bindings generalizing now with
  | nil => exact Action.keeps_pure trivial
  | cons binding rest ih =>
    obtain ⟨first, others⟩ := List.forall_mem_cons.1 good
    refine (keeps_define binding.1 inside first).bind fun later more _ _ => ih ?_
    exact fun binding member => kept.value_mono more (others binding member)

/-! ### Inner forms -/

section Inner

variable {evaluator : Evaluator} (evaluates : kept.Evaluates evaluator)
include evaluates

theorem keeps_nested (cost : Nat) {form : Value} {place : FrameId} (good : kept.value now form)
    (inside : kept.frame place) :
    Action.Keeps kept.world room kept.value now (evaluator.nested cost room form place) := by
  unfold Evaluator.nested
  split
  · next inner entered =>
    exact (evaluates now inner form place good inside).mono fun _ => Room.Allows.of_inner entered
  · next full => exact Action.keeps_fail _ (Room.allows_of_enter? full _)

theorem keeps_allOnto {place : FrameId} (inside : kept.frame place) {forms values : List Value}
    (good : ∀ form ∈ forms, kept.value now form) (earlier : ∀ item ∈ values, kept.value now item) :
    Action.Keeps kept.world room (fun now values => ∀ item ∈ values, kept.value now item) now
      (evaluator.allOnto room place values forms) := by
  induction forms generalizing values now with
  | nil => exact Action.keeps_pure fun item member => earlier item (List.mem_reverse.1 member)
  | cons form rest ih =>
    obtain ⟨first, others⟩ := List.forall_mem_cons.1 good
    refine (keeps_nested evaluates _ first inside).bind fun later more item good => ?_
    exact ih (each_mono more others) (List.forall_mem_cons.2 ⟨good, each_mono more earlier⟩)

/-! ### Special forms -/

theorem keeps_performDefine {place : FrameId} (inside : kept.frame place)
    {operands : List Value} (good : ∀ operand ∈ operands, kept.value now operand) :
    Action.Keeps kept.world room kept.stepResult now
      (SpecialForm.performDefine evaluator room place operands) := by
  unfold SpecialForm.performDefine
  split
  · next name form =>
    refine (keeps_nested evaluates _ (good form (by simp)) inside).bind fun _ _ item good => ?_
    refine (keeps_define name inside good).bind fun _ more _ _ => ?_
    exact Action.keeps_pure (kept.value_mono more good)
  · exact Action.keeps_throwShowing _ _ _
  · exact Action.keeps_throw _ _

theorem keeps_bindPairs {place : FrameId} (inside : kept.frame place) {bindings : List Value}
    (good : ∀ item ∈ bindings, kept.value now item) :
    Action.Keeps kept.world room (fun _ => Anything) now
      (SpecialForm.bindPairs evaluator room place bindings) := by
  fun_induction SpecialForm.bindPairs evaluator room place bindings generalizing now with
  | case1 name form rest ih =>
    refine (keeps_nested evaluates _ (good form (by simp)) inside).bind fun _ more item given => ?_
    refine (keeps_define name inside given).bind fun _ most _ _ => ih ?_
    exact fun item member => kept.value_mono (le_trans more most) (good item (by simp [member]))
  | case2 other second rest notSymbol => exact Action.keeps_throwShowing _ _ _
  | case3 bindings noName noPair => exact Action.keeps_pure trivial

theorem keeps_performBind {place : FrameId} {operands : List Value}
    (good : ∀ operand ∈ operands, kept.value now operand) :
    Action.Keeps kept.world room kept.stepResult now
      (SpecialForm.performBind evaluator room place operands) := by
  unfold SpecialForm.performBind
  split
  · next bindings body =>
    split
    · have items := (kept.list_iff now bindings).1 (good _ (by simp))
      refine (keeps_newFrame (some place)).bind fun _ more inner inside => ?_
      refine (keeps_bindPairs evaluates inside (each_mono more items)).bind fun _ most _ _ => ?_
      exact Action.keeps_pure ⟨kept.value_mono (le_trans more most) (good body (by simp)), inside⟩
    · exact Action.keeps_throw _ _
  · exact Action.keeps_throw _ _
  · exact Action.keeps_throw _ _

theorem keeps_performSequence {place : FrameId} (inside : kept.frame place)
    {operands : List Value} (good : ∀ operand ∈ operands, kept.value now operand) :
    Action.Keeps kept.world room kept.stepResult now
      (SpecialForm.performSequence evaluator room place operands) := by
  fun_induction SpecialForm.performSequence evaluator room place operands generalizing now with
  | case1 => exact Action.keeps_pure (kept.plain now _ trivial)
  | case2 last => exact Action.keeps_pure ⟨good last (by simp), inside⟩
  | case3 form rest more ih =>
    obtain ⟨first, others⟩ := List.forall_mem_cons.1 good
    exact (keeps_nested evaluates _ first inside).bind fun _ more _ _ => ih (each_mono more others)

theorem keeps_performChoose {place : FrameId} (inside : kept.frame place)
    {operands : List Value} (good : ∀ operand ∈ operands, kept.value now operand) :
    Action.Keeps kept.world room kept.stepResult now
      (SpecialForm.performChoose evaluator room place operands) := by
  unfold SpecialForm.performChoose
  split
  · next condition whenTrue =>
    refine (keeps_nested evaluates _ (good condition (by simp)) inside).bind fun _ more item _ => ?_
    refine Action.keeps_pure ?_
    unfold SpecialForm.branch
    split
    · exact ⟨kept.value_mono more (good whenTrue (by simp)), inside⟩
    · exact kept.plain _ _ trivial
  · next condition whenTrue whenFalse =>
    refine (keeps_nested evaluates _ (good condition (by simp)) inside).bind fun _ more item _ => ?_
    refine Action.keeps_pure ?_
    unfold SpecialForm.branch
    split
    · exact ⟨kept.value_mono more (good whenTrue (by simp)), inside⟩
    · exact ⟨kept.value_mono more (good whenFalse (by simp)), inside⟩
  · exact Action.keeps_throw _ _

omit evaluates in
theorem keeps_performFunction (place : FrameId) {operands : List Value}
    (good : ∀ operand ∈ operands, kept.value now operand) :
    Action.Keeps kept.world room kept.stepResult now
      (SpecialForm.performFunction room place operands) := by
  unfold SpecialForm.performFunction
  split
  · next parameters body =>
    dsimp only
    split
    · next names _ =>
      refine (keeps_newClosure names place (good body (by simp))).bind fun _ _ item good => ?_
      exact Action.keeps_pure good
    · exact Action.keeps_throwShowing _ _ _
  · exact Action.keeps_throw _ _

theorem keeps_perform {place : FrameId} (inside : kept.frame place) (form : SpecialForm)
    {operands : List Value} (good : ∀ operand ∈ operands, kept.value now operand) :
    Action.Keeps kept.world room kept.stepResult now
      (form.perform evaluator room place operands) := by
  cases form with
  | define => exact keeps_performDefine evaluates inside good
  | bind => exact keeps_performBind evaluates good
  | sequence => exact keeps_performSequence evaluates inside good
  | choose => exact keeps_performChoose evaluates inside good
  | function => exact keeps_performFunction place good

/-! ### Application and steps -/

/-- The arguments of a call can turn up, and so can what a native operation gives. -/
theorem keeps_call (files : FileTree) (operation : Builtin) {root : FrameId}
    (good : kept.value now (.native operation root)) {arguments : List Value}
    (each : ∀ argument ∈ arguments, kept.value now argument) :
    Action.Keeps kept.world room kept.value now
      (operation.call files evaluator room root arguments) := by
  by_cases other : operation ∈ [Builtin.list, .printLine, .readFile, .readText, .evaluate]
  case neg =>
    obtain ⟨compute, gives, called⟩ := Builtin.computes room other
    rw [called]
    exact Action.keeps_ofExcept ((gives arguments).allows.mono (fun _ => id) (kept.plain now))
  simp only [List.mem_cons, List.not_mem_nil, or_false] at other
  rcases other with rfl | rfl | rfl | rfl | rfl
  · exact Action.keeps_pure ((kept.list_iff now arguments).2 each)
  · have line : Gives room.Meets Anything (Builtin.line room arguments) :=
      (Builtin.gives_joinedItems .readable room arguments).bind fun _ _ => trivial
    have shown : Action.Keeps kept.world room (fun _ => Anything) now
        (Action.ofExcept (Builtin.line room arguments)) := Action.keeps_ofExcept line.allows
    refine shown.bind fun later _ text _ => ?_
    have written : Action.Keeps kept.world room (fun _ => Anything) later (Action.write text) :=
      fun _ before => ⟨later, le_refl later, trivial, kept.write text before⟩
    exact written.bind fun _ _ _ _ => Action.keeps_pure (kept.plain _ _ trivial)
  · have text := Builtin.gives_fileText room files arguments
    exact Action.keeps_ofExcept (text.mono (fun _ => id) (kept.plain now))
  · refine Action.keeps_ofExcept ((Builtin.gives_onlyArgument room .readText arguments).allows.bind
      fun argument _ => ?_)
    split
    · next source _ =>
      exact gives_readText (kept.plain now) (fun items each => (kept.list_iff now items).2 each)
        room source
    · refine (Value.gives_kind room _).allows.bind fun kind _ => ?_
      exact room.allows_error _
  · simp only [Builtin.call, Builtin.evaluateIn]
    have only := (Builtin.gives_onlyArgument room .evaluate arguments).allows
    split
    · next form found =>
      rw [found] at only
      exact keeps_nested evaluates _ (each form only) (kept.root good)
    · next failure fails =>
      rw [fails] at only
      exact Action.keeps_fail _ only

omit evaluates in
theorem keeps_applyClosure (parameters : List String) {body : Value} (place : FrameId)
    (good : kept.value now body) {arguments : List Value}
    (each : ∀ argument ∈ arguments, kept.value now argument) :
    Action.Keeps kept.world room kept.stepResult now
      (applyClosure parameters body place arguments) := by
  unfold applyClosure
  split
  · have bound : ∀ binding ∈ parameters.zip arguments, kept.value now binding.2 :=
      fun binding member => each _ (List.of_mem_zip member).2
    refine (keeps_newFrame (some place)).bind fun _ more inner inside => ?_
    refine (keeps_defineAll inside fun binding member =>
      kept.value_mono more (bound binding member)).bind fun _ most _ _ => ?_
    exact Action.keeps_pure ⟨kept.value_mono (le_trans more most) good, inside⟩
  · exact Action.keeps_throw _ _

theorem keeps_apply (files : FileTree) {head : Value} (good : kept.value now head)
    {arguments : List Value} (each : ∀ argument ∈ arguments, kept.value now argument) :
    Action.Keeps kept.world room kept.stepResult now
      (apply files evaluator room head arguments) := by
  have rendered : Action.Keeps kept.world room (fun _ => Anything) now
      (Action.ofExcept (head.render .readable room)) :=
    Action.keeps_ofExcept (head.gives_render .readable room).allows
  have refused : Action.Keeps kept.world room kept.stepResult now
      (Action.ofExcept (head.render .readable room) >>= fun text =>
        Action.throw (.notCallable text)) :=
    rendered.bind fun _ _ _ _ => Action.keeps_throw _ _
  cases head with
  | closure identity parameters body place =>
    exact keeps_applyClosure parameters place (kept.body good) each
  | native operation root =>
    exact (keeps_call evaluates files operation good each).bind fun _ _ item good =>
      Action.keeps_pure good
  | _ => exact refused

theorem keeps_applyItems (files : FileTree) {place : FrameId} (inside : kept.frame place)
    {items : List Value} (good : ∀ item ∈ items, kept.value now item) :
    Action.Keeps kept.world room kept.stepResult now
      (applyItems files evaluator room place items) := by
  refine (keeps_allOnto evaluates inside good (by simp)).bind fun later _ values each => ?_
  cases values with
  | nil => exact Action.keeps_pure ((kept.list_iff later []).2 (by simp))
  | cons head arguments =>
    obtain ⟨first, others⟩ := List.forall_mem_cons.1 each
    exact keeps_apply evaluates files first others

/-- **A step keeps every invariant that the evaluator of its inner forms keeps.** -/
theorem keeps_step (files : FileTree) {form : Value} {place : FrameId}
    (good : kept.value now form) (inside : kept.frame place) :
    Action.Keeps kept.world room kept.stepResult now
      (step files evaluator room form place) := by
  unfold step
  split
  · next name =>
    exact (keeps_lookup place name).bind fun _ _ item good => Action.keeps_pure good
  · next head operands =>
    have each := (kept.list_iff now _).1 good
    split
    · next special _ =>
      exact keeps_perform evaluates inside special (List.forall_mem_cons.1 each).2
    · exact keeps_applyItems evaluates files inside each
  · exact Action.keeps_pure good

end Inner

/-! ### Evaluation -/

variable {files : FileTree}

/-- An evaluation keeps what its first step keeps, when all others do. -/
theorem keeps_evaluate_succ {fuel : Nat} (evaluates : kept.Evaluates (evaluate files fuel))
    {form : Value} {place : FrameId}
    (first : Action.Keeps kept.world room kept.stepResult now
      (step files (evaluate files fuel) room form place)) :
    Action.Keeps kept.world room kept.value now (evaluate files (fuel + 1) room form place) := by
  intro world before
  have stepped := first world before
  rw [evaluate]
  cases ended : step files (evaluate files fuel) room form place world with
  | outOfFuel => trivial
  | finished result after =>
    rw [ended] at stepped
    obtain ⟨later, more, good, between⟩ := stepped
    cases result with
    | done item => exact ⟨later, more, good, between⟩
    | tail form place =>
      exact (evaluates later room form place good.1 good.2 after between).of_le more
  | failed failure after =>
    rw [ended] at stepped
    cases failure with
    | error error => exact stepped
    | fault fault =>
      cases fault with
      | stackExhausted => exact ⟨room.allows_error _, stepped.2⟩
      | _ => exact stepped

/-- **Evaluation keeps every invariant, whether it finishes or fails.** -/
theorem keeps_evaluate (kept : Invariant Stage) (files : FileTree) (fuel : Nat) :
    kept.Evaluates (evaluate files fuel) := by
  induction fuel with
  | zero =>
    intro now room form place _ _ world _
    trivial
  | succ fuel ih =>
    intro now room form place good inside
    exact keeps_evaluate_succ ih (keeps_step ih files good inside)

end Invariant

end Lisp
