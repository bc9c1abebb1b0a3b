import Lisp.Proofs.FrameEffects
import Lisp.Proofs.LoadFile
import Lisp.Proofs.Sessions

/-!
# Frames that stay as they are

Whatever an evaluation does, and however it ends, the frames that it can change are the
one it evaluates in and the roots of the `eval` operations that its form and its heap
hold.  In an interpreter's world these are the interpreter's own root alone
(`Interpreter.root_of_session`), so whatever frame a step of a session leaves behind is
never changed again.
-/

set_option autoImplicit false

namespace Lisp

/-- The roots of the `eval` operations that a form and a heap hold. -/
def RootAtHand (form : Value) (heap : Heap) (root : FrameId) : Prop :=
  root ∈ form.evaluationRoots ∨ heap.IsEvaluationRoot root

theorem not_isEvaluationRoot_empty (root : FrameId) : ¬ Heap.empty.IsEvaluationRoot root := by
  rintro ⟨frame, binding, member, _⟩
  simp at member

namespace Interpreter

variable {host : Host} {settings : Settings} {interpreter : Interpreter} {start : World}

/-- An interpreter is made with all of its `eval` operations registered for its root. -/
theorem root_of_create
    (created : Interpreter.create host settings World.initial = .finished interpreter start) :
    ∀ root, start.heap.IsEvaluationRoot root → root = interpreter.root := by
  let kept := frameEffects (fun _ => False) (· = 0) Heap.empty
  have natives : ∀ operation, kept.value () (.native operation World.initial.heap.size) := by
    intro operation root inside
    cases operation <;> simp_all [Value.evaluationRoots, World.initial, Heap.size, Heap.empty]
  have holds : kept.world () World.initial :=
    ⟨Preserves.refl _ _, fun root after => absurd after (not_isEvaluationRoot_empty root)⟩
  obtain ⟨root, rfl, built⟩ := Action.finished_of_bind_pure created
  obtain ⟨isFirst, _, _, known⟩ := Invariant.world_of_newRoot host settings natives holds built
  intro other registered
  rw [known.2 other registered]
  exact isFirst.symm

/-- In a session, all `eval` operations stay registered for the interpreter's root. -/
theorem root_of_session {earlier later : World} (session : interpreter.Session earlier later)
    (known : ∀ root, earlier.heap.IsEvaluationRoot root → root = interpreter.root) :
    (frameEffects (fun _ => False) (· = interpreter.root) earlier.heap).world () later := by
  have inside : (frameEffects (fun _ => False) (· = interpreter.root) earlier.heap).frame
      interpreter.root := .inl (.inr rfl)
  obtain ⟨_, _, kept⟩ := Invariant.keeps_session inside session (frameEffects_start _ _ known)
  exact kept

end Interpreter

/-- **An evaluation, whether it finishes or fails, changes no frame that was there before
but its own and the roots of the `eval` operations at hand; it changes no frame's outer
frame, and keeps the names of every frame in front.  A `let*` does not even change its
own.**  An interpreter's world holds `eval` operations for the interpreter's root alone.
So a frame that is there at the end of a step of a session, the root apart, is as it is
there at the end of every later step. -/
theorem frames_changed_by_runs :
    (∀ (files : FileTree) (fuel : Nat) (room : Room) (form : Value) (frame : FrameId)
        (world after : World),
      (evaluate files fuel room form frame world).world? = some after →
        Preserves (fun place => place = frame ∨ RootAtHand form world.heap place)
          world.heap after.heap ∧
        ∀ operands, form = .list (.symbol SpecialForm.bind.name :: operands) →
          Preserves (RootAtHand form world.heap) world.heap after.heap) ∧
    ∀ (host : Host) (settings : Settings) (interpreter : Interpreter) (start : World),
      Interpreter.create host settings World.initial = .finished interpreter start →
        ∀ earlier later, interpreter.Session start earlier → interpreter.Session earlier later →
          (∀ root, earlier.heap.IsEvaluationRoot root → root = interpreter.root) ∧
          ∀ place < earlier.heap.size, place ≠ interpreter.root →
            later.heap.frame? place = earlier.heap.frame? place := by
  refine ⟨?_, ?_⟩
  · intro files fuel room form frame world after left
    have ofForm : ∀ root ∈ form.evaluationRoots, RootAtHand form world.heap root :=
      fun root => .inl
    have ofHeap : ∀ root, world.heap.IsEvaluationRoot root → RootAtHand form world.heap root :=
      fun root => .inr
    refine ⟨(frameEffects_evaluate files fuel room frame ofForm ofHeap left).1, ?_⟩
    intro operands isBind
    have changed := (frameEffects_evaluate_bind files fuel room frame ofForm ofHeap isBind left).1
    exact changed.mono fun place _ changes => changes.resolve_left id
  · intro host settings interpreter start created earlier later session further
    have known : ∀ root, earlier.heap.IsEvaluationRoot root → root = interpreter.root :=
      (Interpreter.root_of_session session (Interpreter.root_of_create created)).2
    refine ⟨known, ?_⟩
    intro place old other
    refine (Interpreter.root_of_session further known).1.frame?_eq place old ?_
    rintro (impossible | same)
    · exact impossible
    · exact other same

/-- A closure made inside a `let*` keeps the frame of the `let*`.  Calling it defines a name that
this frame binds, as does another `let*` that is evaluated there, and both leave it as it is. -/
theorem captured_frame_is_kept :
    let host : Host := ⟨.empty, 4, .unlimited⟩
    let bind : Value := .list [.symbol "let*", .list [.symbol "x", .boolean true],
      .list [.symbol "def!", .symbol "x", .nil]]
    ∃ (start earlier later after : World) (identity captured : Nat) (body : Value),
      Interpreter.create host ⟨none, none⟩ World.initial = .finished ⟨0⟩ start ∧
      Interpreter.evaluate ⟨0⟩ host "(def! f (let* (x nil) (fn* (y) (def! x true))))" start =
        .finished (.closure identity ["y"] body captured) earlier ∧
      earlier.heap.bindings captured = [("x", .nil)] ∧
      Interpreter.evaluate ⟨0⟩ host "(f nil)" earlier = .finished (.boolean true) later ∧
      later.heap.frame? captured = earlier.heap.frame? captured ∧
      evaluate host.files host.fuel host.room bind captured later = .finished .nil after ∧
      after.heap.frame? captured = earlier.heap.frame? captured := by
  intro host bind
  have packaged : Prelude.isPackaged ⟨none, none⟩ = true := rfl
  obtain ⟨start, created⟩ : ∃ start, Interpreter.create host ⟨none, none⟩ World.initial =
      .finished ⟨0⟩ start :=
    Interpreter.exists_create packaged .empty 2 World.initial
  obtain ⟨_, loads⟩ := (Interpreter.holdsLoading_of_create packaged created).closure
  have present : 0 < start.heap.size := Heap.lt_size_of_find? loads
  let body : Value := .list [.symbol "def!", .symbol "x", .boolean true]
  let function : Value := .closure start.closures ["y"] body start.heap.size
  let earlier : World :=
    { start with
      closures := start.closures + 1
      heap := (start.calling 0 "x" .nil).heap.define 0 "f" function }
  have defines : Interpreter.evaluate ⟨0⟩ host "(def! f (let* (x nil) (fn* (y) (def! x true))))"
      start = .finished function earlier := by
    have reads : readProgram .unlimited "(def! f (let* (x nil) (fn* (y) (def! x true))))" =
        .ok [.list [.symbol "def!", .symbol "f",
          .list [.symbol "let*", .list [.symbol "x", .nil],
            .list [.symbol "fn*", .list [.symbol "y"], body]]]] := by cbv
    rw [Interpreter.evaluate, host.evaluateSource_of_form reads]
    rfl
  let later : World :=
    { earlier.calling start.heap.size "y" .nil with
      heap := (earlier.calling start.heap.size "y" .nil).heap.define earlier.heap.size "x"
        (.boolean true) }
  have calls : Interpreter.evaluate ⟨0⟩ host "(f nil)" earlier = .finished (.boolean true) later := by
    have reads : readProgram .unlimited "(f nil)" = .ok [.list [.symbol "f", .nil]] := by cbv
    have bound : (earlier.heap.bindings 0).find? "f" = some function := by
      rw [(start.calling 0 "x" .nil).heap.find?_bindings_define (by simp), if_pos rfl]
    have operation : HasValue .empty 3 .unlimited 0 earlier (.symbol "f") function :=
      hasValue_symbol (Heap.lookup?_of_find? bound)
    have argument : HasValue .empty 3 .unlimited 0 earlier .nil .nil := rfl
    rw [Interpreter.evaluate, host.evaluateSource_of_form reads, Host.evaluate,
      evaluate_call rfl rfl (.cons operation (.cons argument .nil))]
    rfl
  let after : World :=
    { later.calling start.heap.size "x" (.boolean true) with
      heap := (later.calling start.heap.size "x" (.boolean true)).heap.define later.heap.size "x" .nil }
  have binds : evaluate host.files host.fuel host.room bind start.heap.size later =
      .finished .nil after := rfl
  obtain ⟨runs, sessions⟩ := frames_changed_by_runs
  have first : Interpreter.Session ⟨0⟩ start earlier :=
    .step .start (.evaluate host _ (congrArg Outcome.world? defines))
  have second : Interpreter.SessionStep ⟨0⟩ earlier later :=
    .evaluate host _ (congrArg Outcome.world? calls)
  obtain ⟨_, kept⟩ := sessions host _ _ _ created earlier later first (.step .start second)
  obtain ⟨known, _⟩ := sessions host _ _ _ created later later (.step first second) .start
  have other : start.heap.size ≠ 0 := Nat.ne_of_gt present
  have inside : start.heap.size < earlier.heap.size := by simp [earlier]
  have same := kept start.heap.size inside other
  have changed := (runs host.files host.fuel host.room bind start.heap.size later after
    (congrArg Outcome.world? binds)).2 _ rfl
  have unchanged : after.heap.frame? start.heap.size = later.heap.frame? start.heap.size := by
    have holdsNone : bind.evaluationRoots = [] := rfl
    have inside' : start.heap.size < later.heap.size := by
      simp only [later, Heap.size_define, World.size_calling]
      omega
    refine changed.frame?_eq _ inside' ?_
    rintro (inForm | inHeap)
    · simp [holdsNone] at inForm
    · exact other (known _ inHeap)
  refine ⟨start, earlier, later, after, _, _, _, created, defines, ?_, calls, same, binds,
    unchanged.trans same⟩
  rw [Heap.bindings_define_of_ne _ other]
  exact start.bindings_calling_inner 0 "x" .nil

end Lisp
