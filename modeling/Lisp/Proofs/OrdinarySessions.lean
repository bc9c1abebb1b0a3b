import Lisp.Proofs.HostsAlike
import Lisp.Proofs.LoadFile
import Lisp.Proofs.Sessions

/-!
# Sessions stay ordinary

An interpreter with the packaged prelude that is given nothing but source texts and files
keeps to ordinary values: all numbers are doubles, and all names are names that the reader
can produce (`ordinary_sessions`).  That is so of what its steps give, of what any frame
binds, of the bodies of closures, and of the arguments of native operations.

A world that follows another under the same names is that world (`Renaming.Follows.eq_of_same`),
so two runs side by side from one world are one run.  That it is ordinary is what holds of
such runs, and that native operations are called on ordinary arguments is that a run is the
same with any others that agree on these.
-/

set_option autoImplicit false

namespace Lisp

theorem World.isOrdinary_initial : World.initial.IsOrdinary := by
  intro _ _ member
  simp [initial] at member

/-- Whether an action ends with a result of some kind or fails in an ordinary way, and leaves
an ordinary world. -/
def Outcome.IsOrdinary {α : Type} (result : Extent → α → Prop) : Outcome α → Prop
  | .finished value after => result after.extent value ∧ after.IsOrdinary
  | .failed failure after => failure.IsOrdinary ∧ after.IsOrdinary
  | .outOfFuel => True

/-! ## One run as two -/

namespace Heap

/-- Heaps with as many frames, of which each binds the same inside the same frame, are the same. -/
theorem ext {heap heap' : Heap} (size : heap.size = heap'.size)
    (bindings : ∀ frame, heap.bindings frame = heap'.bindings frame)
    (outer? : ∀ frame, heap.outer? frame = heap'.outer? frame) : heap = heap' := by
  have frames : heap.frames = heap'.frames := by
    refine Array.ext size fun place there there' => ?_
    have binds := bindings place
    have around := outer? place
    simp only [Heap.bindings, Heap.outer?, frame?, Array.getElem?_eq_getElem there,
      Array.getElem?_eq_getElem there', Option.map_some, Option.getD_some,
      Option.bind_some] at binds around
    cases frame : heap.frames[place]
    cases frame' : heap'.frames[place]
    simp_all
  cases heap
  cases heap'
  cases frames
  rfl

end Heap

namespace Renaming

/-- An ordinary world follows itself. -/
theorem follows_same {world : World} (ordinary : world.IsOrdinary) : same.Follows world world where
  ordinary := ordinary
  frame _ := rfl
  identity _ := rfl
  bindings frame := (ordinary.bindings_rename_eq (fixes_same _) frame).symm
  outer? _ := Option.map_id_apply.symm

/-- **A world that follows another under the same names is the same but for what was
written.** -/
theorem Follows.eq_of_same {world world' : World} (follows : same.Follows world world')
    (output : world'.output = world.output) : world' = world := by
  have heap : world'.heap = world.heap := by
    refine Heap.ext (follows.frame 0).symm (fun frame => ?_) fun frame => ?_
    · exact (follows.bindings frame).trans
        (follows.ordinary.bindings_rename_eq (fixes_same _) frame)
    · exact (follows.outer? frame).trans Option.map_id_apply
  have closures : world'.closures = world.closures := (follows.identity 0).symm
  cases world
  cases world'
  simp_all

/-- **Runs side by side from one world are one run, and ordinary.** -/
theorem EndsAlike.eq_of_same {α : Type} {related : Extent → α → α → Prop}
    {result : Extent → α → Prop} {world : World} {outcome outcome' : Outcome α}
    (ends : same.EndsAlike related world world outcome outcome')
    (one : ∀ extent value value', related extent value value' → value' = value ∧ result extent value) :
    outcome = outcome' ∧ outcome.IsOrdinary result := by
  have one_world : ∀ after after', same.Reaches world world after after' → after' = after := by
    intro after after' reaches
    obtain ⟨text, left, right⟩ := reaches.text
    exact reaches.follows.eq_of_same (right.trans left.symm)
  cases ends with
  | finished reaches good =>
    obtain ⟨rfl, good⟩ := one _ _ _ good
    obtain rfl := one_world _ _ reaches
    exact ⟨rfl, good, reaches.follows.ordinary⟩
  | failed reaches ordinary =>
    obtain rfl := one_world _ _ reaches
    exact ⟨rfl, ordinary, reaches.follows.ordinary⟩
  | outOfFuel => exact ⟨rfl, trivial⟩

theorem Alike.eq_of_same {α : Type} {related : Extent → α → α → Prop} {result : Extent → α → Prop}
    {extent : Extent} {action action' : Action α} (alike : same.Alike extent related action action')
    (one : ∀ extent value value', related extent value value' → value' = value ∧ result extent value)
    {world : World} (ordinary : world.IsOrdinary) (enough : extent ≤ world.extent) :
    action world = action' world ∧ (action world).IsOrdinary result :=
  (alike world world (follows_same ordinary) enough).eq_of_same one

theorem values_same (extent : Extent) (value value' : Value)
    (related : same.values extent value value') : value' = value ∧ value.IsOrdinary extent :=
  ⟨related.2.trans (related.1.rename_eq (Renaming.fixes_same _)), related.1⟩

/-- What runs side by side leave, if they end. -/
theorem Alike.reaches {α β : Type} {naming : Renaming} {extent : Extent}
    {related : Extent → α → β → Prop} {action : Action α} {action' : Action β}
    (alike : naming.Alike extent related action action') {world world' after : World}
    (follows : naming.Follows world world') (enough : extent ≤ world.extent)
    (left : (action world).world? = some after) :
    ∃ after', naming.Reaches world world' after after' := by
  have ends := alike world world' follows enough
  generalize action world = outcome at ends left
  generalize action' world' = outcome' at ends
  cases ends with
  | finished reaches _ =>
    cases left
    exact ⟨_, reaches⟩
  | failed reaches _ =>
    cases left
    exact ⟨_, reaches⟩
  | outOfFuel => cases left

end Renaming

/-! ## Sessions -/

namespace Interpreter

variable {interpreter : Interpreter}

/-- A step of a session in one world has another side by side with it in a world that
follows. -/
theorem SessionStep.reaches {naming : Renaming} {world world' after : World}
    (step : interpreter.SessionStep world after) (follows : naming.Follows world world')
    (inside : interpreter.root < world.extent.frames) :
    ∃ after', naming.Reaches world world' after after' := by
  cases step with
  | evaluate host source left =>
    have alike := Renaming.alike_evaluateSource naming Operations.agree_call host inside source
    rw [Operations.evaluateSource_call] at alike
    exact alike.reaches follows (le_refl _) left
  | evaluateAndPrint host source left =>
    exact (Renaming.alike_evaluateAndPrint naming host inside source).reaches follows (le_refl _) left
  | load host path left =>
    have alike := Renaming.alike_load naming Operations.agree_call host inside path
    rw [Operations.load_call] at alike
    exact alike.reaches follows (le_refl _) left

/-- **A session keeps its world ordinary, and its root there.** -/
theorem Session.isOrdinary {start world : World} (session : interpreter.Session start world)
    (ordinary : start.IsOrdinary) (inside : interpreter.root < start.extent.frames) :
    world.IsOrdinary ∧ interpreter.root < world.extent.frames := by
  induction session with
  | start => exact ⟨ordinary, inside⟩
  | step _ step ih =>
    obtain ⟨_, reaches⟩ := step.reaches (Renaming.follows_same ih.1) ih.2
    exact ⟨reaches.follows.ordinary, Nat.lt_of_lt_of_le ih.2 reaches.more.1⟩

/-- An interpreter with the packaged prelude is made in an ordinary world. -/
theorem isOrdinary_of_create {host : Host} {settings : Settings} {before start : World}
    (packaged : Prelude.isPackaged settings = true) (ordinary : before.IsOrdinary)
    (created : create host settings before = .finished interpreter start) :
    start.IsOrdinary ∧ interpreter.root < start.extent.frames := by
  have alike : Renaming.same.Alike before.extent _ _ _ :=
    Renaming.alike_create .same host (host.loadPrelude_of_packaged packaged)
  have ends := alike before before (Renaming.follows_same ordinary) (le_refl _)
  rw [created] at ends
  cases ends with
  | finished reaches related => exact ⟨reaches.follows.ordinary, related.1⟩

section

variable {world : World} (ordinary : world.IsOrdinary)
variable (inside : interpreter.root < world.extent.frames)
variable {operations : Operations} (agree : operations.Agree) (host : Host)
include ordinary inside agree

theorem evaluate_isOrdinary (source : String) :
    operations.evaluateSource host interpreter.root source world =
        interpreter.evaluate host source world ∧
      (operations.evaluateSource host interpreter.root source world).IsOrdinary Value.IsOrdinary :=
  (Renaming.alike_evaluateSource .same agree host inside source).eq_of_same Renaming.values_same
    ordinary (le_refl _)

theorem load_isOrdinary (path : String) :
    operations.load interpreter host path world = interpreter.load host path world ∧
      (operations.load interpreter host path world).IsOrdinary Value.IsOrdinary :=
  (Renaming.alike_load .same agree host inside path).eq_of_same Renaming.values_same ordinary
    (le_refl _)

end

end Interpreter

/-- **Every session of an interpreter with the packaged prelude, made in an ordinary world,
keeps to ordinary values, whatever source texts it evaluates, with and without printing, and
whatever files it loads, and however its steps end.**

The world that it leads to is ordinary: so is every value that any frame binds, with the
bodies of all closures in it.  Each further step gives an ordinary value or fails in an
ordinary way, so never because something is no value of the language, cannot be rendered or
is no symbol to define.  And each is the same step with any other native operations that do
the same on ordinary arguments: no others are ever passed to one. -/
theorem ordinary_sessions {host : Host} {settings : Settings} {interpreter : Interpreter}
    {before start world : World} (packaged : Prelude.isPackaged settings = true)
    (ordinary : before.IsOrdinary)
    (created : Interpreter.create host settings before = .finished interpreter start)
    (session : interpreter.Session start world) :
    world.IsOrdinary ∧
    (∀ (host : Host) (source : String),
      (interpreter.evaluate host source world).IsOrdinary Value.IsOrdinary ∧
      (interpreter.evaluateAndPrint host source world).IsOrdinary (fun _ => Anything) ∧
      ∀ operations : Operations, operations.Agree →
        operations.evaluateSource host interpreter.root source world =
          interpreter.evaluate host source world) ∧
    ∀ (host : Host) (path : String),
      (interpreter.load host path world).IsOrdinary Value.IsOrdinary ∧
      ∀ operations : Operations, operations.Agree →
        operations.load interpreter host path world = interpreter.load host path world := by
  obtain ⟨started, there⟩ := Interpreter.isOrdinary_of_create packaged ordinary created
  obtain ⟨isOrdinary, inside⟩ := session.isOrdinary started there
  refine ⟨isOrdinary, fun host source => ⟨?_, ?_, fun operations agree => ?_⟩,
    fun host path => ⟨?_, fun operations agree => ?_⟩⟩
  · obtain ⟨same, ends⟩ :=
      Interpreter.evaluate_isOrdinary isOrdinary inside Operations.agree_call host source
    rwa [same] at ends
  · have printed := Renaming.alike_evaluateAndPrint .same host inside source
    exact (printed.eq_of_same (fun _ _ _ related => ⟨related, trivial⟩) isOrdinary (le_refl _)).2
  · exact (Interpreter.evaluate_isOrdinary isOrdinary inside agree host source).1
  · obtain ⟨same, ends⟩ :=
      Interpreter.load_isOrdinary isOrdinary inside Operations.agree_call host path
    rwa [same] at ends
  · exact (Interpreter.load_isOrdinary isOrdinary inside agree host path).1

/-- A session that defines a closure, loads a file, and then fails, but not before it has defined
a name.  In the end all that was defined is there, and all is ordinary. -/
theorem ordinary_after_failed_text :
    let host := hostWith "(def! a nil)"
    ∃ start defined loaded world function,
      Interpreter.create host ⟨none, none⟩ World.initial = .finished ⟨0⟩ start ∧
      Interpreter.evaluate ⟨0⟩ host "(def! f (fn* (x) x))" start = .finished function defined ∧
      Interpreter.load ⟨0⟩ host "f.mal" defined = .finished .nil loaded ∧
      Interpreter.evaluate ⟨0⟩ host "(do (def! b nil) (def! c))" loaded =
        .failed (.error .definitionArity) world ∧
      (world.heap.bindings 0).find? "f" = some function ∧
      (world.heap.bindings 0).find? "a" = some .nil ∧
      (world.heap.bindings 0).find? "b" = some .nil ∧
      world.IsOrdinary ∧ ∀ host source,
        (Interpreter.evaluate ⟨0⟩ host source world).IsOrdinary Value.IsOrdinary := by
  intro host
  have packaged : Prelude.isPackaged ⟨none, none⟩ = true := rfl
  obtain ⟨start, created⟩ : ∃ start, Interpreter.create host ⟨none, none⟩ World.initial =
      .finished ⟨0⟩ start :=
    Interpreter.exists_create packaged host.files 4 World.initial
  have present : 0 < start.heap.size :=
    (Interpreter.isOrdinary_of_create packaged World.isOrdinary_initial created).2
  let function : Value := .closure start.closures ["x"] (.symbol "x") 0
  let defined : World :=
    { start with closures := start.closures + 1, heap := start.heap.define 0 "f" function }
  let loaded : World :=
    { defined.loading 0 "f.mal" with heap := (defined.loading 0 "f.mal").heap.define 0 "a" .nil }
  let world : World := { loaded with heap := loaded.heap.define 0 "b" .nil }
  have defines : Interpreter.evaluate ⟨0⟩ host "(def! f (fn* (x) x))" start =
      .finished function defined := by
    have reads : readProgram .unlimited "(def! f (fn* (x) x))" =
        .ok [.list [.symbol "def!", .symbol "f",
          .list [.symbol "fn*", .list [.symbol "x"], .symbol "x"]]] := by cbv
    rw [Interpreter.evaluate, host.evaluateSource_of_form reads]
    rfl
  have loads : Interpreter.load ⟨0⟩ host "f.mal" defined = .finished .nil loaded := by
    have original : ∀ name ∈ loadingNames,
        (defined.heap.bindings 0).find? name = (start.heap.bindings 0).find? name := by
      intro name looked
      have other : "f" ≠ name := by
        rintro rfl
        exact absurd looked (by decide)
      rw [start.heap.find?_bindings_define present, if_neg other]
    have readable : Builtin.fileText host.files [.string "f.mal"] =
        .ok (.string "(def! a nil)") := by cbv
    have can : CanLoad host.files 0 defined "f.mal" "(def! a nil)" :=
      Interpreter.canLoad_of_original packaged created original readable
    have accepted : readProgram .unlimited "(def! a nil)" =
        .ok [.list [.symbol "def!", .symbol "a", .nil]] := by cbv
    exact @CanLoad.load_unlimited _ 0 _ _ _ _ can _ (readText_wrapped_of_readable accepted)
  have fails : Interpreter.evaluate ⟨0⟩ host "(do (def! b nil) (def! c))" loaded =
      .failed (.error .definitionArity) world := by
    have reads : readProgram .unlimited "(do (def! b nil) (def! c))" =
        .ok [.list [.symbol "do", .list [.symbol "def!", .symbol "b", .nil],
          .list [.symbol "def!", .symbol "c"]]] := by cbv
    rw [Interpreter.evaluate, host.evaluateSource_of_form reads]
    rfl
  have session : Interpreter.Session ⟨0⟩ start world := by
    have first : Interpreter.Session ⟨0⟩ start defined :=
      .step .start (.evaluate host _ (congrArg Outcome.world? defines))
    have second : Interpreter.Session ⟨0⟩ start loaded :=
      .step first (.load host _ (congrArg Outcome.world? loads))
    exact .step second (.evaluate host _ (congrArg Outcome.world? fails))
  obtain ⟨ordinary, evaluates, _⟩ :=
    ordinary_sessions packaged World.isOrdinary_initial created session
  have bound : ∀ name, (world.heap.bindings 0).find? name =
      if "b" = name then some .nil else if "a" = name then some .nil
      else if "f" = name then some function else (start.heap.bindings 0).find? name := by
    intro name
    have inside : 0 < defined.heap.size := by simpa [defined] using present
    have inside' : 0 < (defined.loading 0 "f.mal").heap.size := by simp [World.loading]
    rw [loaded.heap.find?_bindings_define (by simpa [loaded] using inside'),
      (defined.loading 0 "f.mal").heap.find?_bindings_define inside',
      World.loading, defined.bindings_calling 0 _ _ inside,
      start.heap.find?_bindings_define present]
  exact ⟨start, defined, loaded, world, function, created, defines, loads, fails, bound _, bound _,
    bound _, ordinary, fun host source => (evaluates host source).1⟩

end Lisp
