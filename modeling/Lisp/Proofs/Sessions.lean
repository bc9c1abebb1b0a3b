import Lisp.Interpreter
import Lisp.Proofs.Invariants

/-!
# Sessions

A session is any sequence of source texts evaluated, evaluated and printed, and files
loaded, by one interpreter; a step that fails does not end it, and hosts may change
between the steps.  What every evaluation keeps, every session keeps
(`Invariant.keeps_session`), and so does building an interpreter
(`Invariant.world_of_newRoot`).
-/

set_option autoImplicit false

namespace Lisp

/-! ## What hosts do -/

theorem Action.newFrame_bind {α : Type} (outer? : Option FrameId) (next : FrameId → Action α)
    (world : World) :
    (newFrame outer? >>= next) world =
      next world.heap.size { world with heap := world.heap.push outer? } :=
  rfl

/-- What is done after an action with its value alone finishes where the action does. -/
theorem Action.finished_of_bind_pure {α β : Type} {action : Action α} {result : α → β}
    {world after : World} {value : β}
    (finished : (action >>= fun inner => pure (result inner)) world = .finished value after) :
    ∃ inner, result inner = value ∧ action world = .finished inner after := by
  rw [bind_apply] at finished
  cases ended : action world with
  | outOfFuel => simp [ended] at finished
  | failed failure between => simp [ended] at finished
  | finished inner between =>
    rw [ended] at finished
    cases finished
    exact ⟨inner, rfl, rfl⟩

namespace Invariant

variable {Stage : Type} [Preorder Stage] {kept : Invariant Stage} {now : Stage}

section

variable (host : Host) {place : FrameId} (inside : kept.frame place)
include inside

theorem keeps_evaluateForms {forms : List Value} (good : ∀ form ∈ forms, kept.value now form)
    {last : Value} (last_good : kept.value now last) :
    Action.Keeps kept.world host.room kept.value now (host.evaluateForms place last forms) := by
  induction forms generalizing last now with
  | nil => exact Action.keeps_pure last_good
  | cons form rest ih =>
    obtain ⟨first, others⟩ := List.forall_mem_cons.1 good
    have evaluated := kept.keeps_evaluate host.files host.fuel now host.room form place first inside
    exact evaluated.bind fun _ more value given => ih (each_mono more others) given

/-- Evaluating a source text keeps every invariant: what is read is made of plain values. -/
theorem keeps_evaluateSource (source : String) :
    Action.Keeps kept.world host.room kept.value now (host.evaluateSource place source) := by
  have forms := gives_readProgram (kept.plain now)
    (fun items each => (kept.list_iff now items).2 each) host.room source
  have read : Action.Keeps kept.world host.room
      (fun later forms => ∀ form ∈ forms, kept.value later form) now
      (Action.ofExcept (readProgram host.room source)) := Action.keeps_ofExcept forms
  refine read.bind fun later _ forms good => ?_
  exact keeps_evaluateForms host inside good (kept.plain later _ trivial)

theorem keeps_loadPackaged (texts : List (String × String)) :
    Action.Keeps kept.world host.room (fun _ => Anything) now (host.loadPackaged place texts) := by
  induction texts generalizing now with
  | nil => exact Action.keeps_pure trivial
  | cons text rest ih =>
    exact (keeps_evaluateSource host inside text.2).bind fun _ _ _ _ => ih

theorem keeps_loadPaths (paths : List Path) :
    Action.Keeps kept.world host.room (fun _ => Anything) now (host.loadPaths place paths) := by
  induction paths generalizing now with
  | nil => exact Action.keeps_pure trivial
  | cons path rest ih =>
    have text : Gives host.room.Allows Anything (Prelude.text host.files path) := by
      unfold Prelude.text
      split
      · trivial
      · exact fun _ => nofun
    have read : Action.Keeps kept.world host.room (fun _ => Anything) now
        (Action.ofExcept (Prelude.text host.files path)) := Action.keeps_ofExcept text
    refine read.bind fun _ _ text _ => ?_
    exact (keeps_evaluateSource host inside text).bind fun _ _ _ _ => ih

theorem keeps_loadPrelude (settings : Settings) :
    Action.Keeps kept.world host.room (fun _ => Anything) now
      (host.loadPrelude settings place) := by
  unfold Host.loadPrelude
  split
  · exact keeps_loadPackaged host inside _
  · have paths := Prelude.gives_paths host.room settings host.files
    split
    · exact keeps_loadPaths host inside _
    · next fault fails =>
      rw [fails] at paths
      exact Action.keeps_fail _ paths

/-- Filling a root with bindings and the prelude keeps every invariant that allows their
values. -/
theorem keeps_fillRoot (settings : Settings) {bindings : Bindings}
    (good : ∀ binding ∈ bindings, kept.value now binding.2) :
    Action.Keeps kept.world host.room (fun _ => (· = place)) now (do
      Action.defineAll place bindings
      host.loadPrelude settings place
      return place) := by
  refine (keeps_defineAll inside good).bind fun _ _ _ _ => ?_
  refine (keeps_loadPrelude host inside settings).bind fun _ _ _ _ => ?_
  exact Action.keeps_pure rfl

omit inside in
/-- Building a root keeps every invariant that allows native operations for it. -/
theorem world_of_newRoot (settings : Settings) {before after : World} {root : FrameId}
    (natives : ∀ operation, kept.value now (.native operation before.heap.size))
    (holds : kept.world now before) (built : host.newRoot settings before = .finished root after) :
    root = before.heap.size ∧ ∃ later, now ≤ later ∧ kept.world later after := by
  obtain ⟨inside, framed⟩ := kept.newFrame none holds
  rw [Host.newRoot, Action.newFrame_bind] at built
  -- The bindings are held as a whole: unfolded, their definitions would be run one by one.
  generalize same : Host.nativeBindings before.heap.size = bindings at built
  have good : ∀ binding ∈ bindings, kept.value now binding.2 := by
    intro binding member
    rw [← same, Host.nativeBindings, List.mem_map] at member
    obtain ⟨operation, _, rfl⟩ := member
    exact natives operation
  obtain ⟨later, more, isPlace, kept⟩ :=
    (keeps_fillRoot host inside settings good).of_finished framed built
  exact ⟨isPlace, later, more, kept⟩

end

end Invariant

/-! ## Steps of a session -/

namespace Interpreter

/-- What an interpreter does in one step of a session, with a value or with a failure. -/
inductive SessionStep (interpreter : Interpreter) (before after : World) : Prop where
  | evaluate (host : Host) (source : String) :
      (interpreter.evaluate host source before).world? = some after →
        SessionStep interpreter before after
  | evaluateAndPrint (host : Host) (source : String) :
      (interpreter.evaluateAndPrint host source before).world? = some after →
        SessionStep interpreter before after
  | load (host : Host) (path : String) :
      (interpreter.load host path before).world? = some after →
        SessionStep interpreter before after

/-- The worlds that sessions of an interpreter lead to. -/
inductive Session (interpreter : Interpreter) (start : World) : World → Prop where
  | start : Session interpreter start start
  | step {between after : World} : Session interpreter start between →
      SessionStep interpreter between after → Session interpreter start after

end Interpreter

namespace Invariant

variable {Stage : Type} [Preorder Stage] {kept : Invariant Stage} {now : Stage}
variable {interpreter : Interpreter} (inside : kept.frame interpreter.root)
include inside

theorem keeps_load (host : Host) (path : String) :
    Action.Keeps kept.world host.room kept.value now (interpreter.load host path) := by
  have call : kept.value now (.list [.symbol "load-file", .string path]) := by
    refine (kept.list_iff now _).2 ?_
    simp only [List.forall_mem_cons]
    exact ⟨kept.plain now _ trivial, kept.plain now _ trivial, by simp⟩
  exact kept.keeps_evaluate host.files host.fuel now host.room _ interpreter.root call inside

theorem keeps_sessionStep {before after : World} (step : interpreter.SessionStep before after)
    (holds : kept.world now before) : ∃ later, now ≤ later ∧ kept.world later after := by
  cases step with
  | evaluate host source left =>
    exact (keeps_evaluateSource host inside source).of_world? holds left
  | evaluateAndPrint host source left =>
    have printed : Action.Keeps kept.world host.room (fun _ => Anything) now
        (interpreter.evaluateAndPrint host source) :=
      (keeps_evaluateSource host inside source).bind fun _ _ value _ =>
        Action.keeps_ofExcept (value.gives_render .readable host.room).allows
    exact printed.of_world? holds left
  | load host path left => exact (keeps_load inside host path).of_world? holds left

/-- **A session keeps every invariant that allows evaluating in the root.** -/
theorem keeps_session {start after : World} (session : interpreter.Session start after)
    (holds : kept.world now start) : ∃ later, now ≤ later ∧ kept.world later after := by
  induction session with
  | start => exact ⟨now, le_refl now, holds⟩
  | step _ step ih =>
    obtain ⟨between, more, kept⟩ := ih
    obtain ⟨later, most, kept⟩ := keeps_sessionStep inside step kept
    exact ⟨later, le_trans more most, kept⟩

end Invariant

end Lisp
