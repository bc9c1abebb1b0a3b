import Lisp.Proofs.EvaluationsAlike
import Lisp.Proofs.Sessions

/-!
# Hosts and interpreters side by side

What a host evaluates, it evaluates alike in worlds of which one follows the other: source
texts, the packaged prelude, files that an interpreter loads.  So interpreters can be built
side by side (`Renaming.alike_create`), and each does what the other does.
-/

set_option autoImplicit false

namespace Lisp

/-- The names of native operations can be read. -/
theorem Builtin.isReadableName_name (operation : Builtin) : IsReadableName operation.name := by
  have alone : IsToken operation.name.toList := by
    cases operation <;> exact Lexeme.isToken_atom (by decide) (by decide)
  refine ⟨(tokenize_eq_self_iff _).2 alone, ?_, ?_, ?_, ?_, ?_, ?_, ?_⟩
  all_goals cases operation <;> decide

theorem isReadableName_loadFile : IsReadableName "load-file" :=
  ⟨(tokenize_eq_self_iff _).2 (Lexeme.isToken_atom (by decide) (by decide)), by decide, by decide,
    by decide, by decide, by decide, by decide, by decide⟩

namespace Renaming

variable (naming : Renaming) {extent : Extent} {operations : Operations}
variable (agree : operations.Agree) (host : Host)

section Source

variable {frame : FrameId} (inside : frame < extent.frames)
include agree inside

theorem alike_evaluateForms {last : Value} (ordinary : last.IsOrdinary extent)
    {forms : List Value} (each : ∀ form ∈ forms, form.IsOrdinary extent) :
    naming.Alike extent naming.values (operations.evaluateForms host frame last forms)
      (host.evaluateForms (naming.frame frame) (last.rename naming)
        (forms.map (Value.rename naming))) := by
  induction forms generalizing extent last with
  | nil => exact alike_value ordinary
  | cons form rest ih =>
    obtain ⟨first, others⟩ := List.forall_mem_cons.1 each
    have evaluated := alike_evaluate naming agree host.files host.fuel
    refine (evaluated extent host.room form frame first inside).bind ?_
    rintro later more value _ ⟨ordinary, rfl⟩
    exact ih (Nat.lt_of_lt_of_le inside more.1) ordinary
      fun form member => (others form member).mono more

/-- **A source text is evaluated alike in worlds of which one follows the other.** -/
theorem alike_evaluateSource (source : String) :
    naming.Alike extent naming.values (operations.evaluateSource host frame source)
      (host.evaluateSource (naming.frame frame) source) := by
  have forms : naming.Alike extent naming.lists (Action.ofExcept (readProgram host.room source))
      (Action.ofExcept (readProgram host.room source)) := by
    refine alike_ofExcept (gives_ordinary_readProgram host.room source) fun forms ordinary _ _ => ?_
    exact ⟨fun form member => (ordinary form member).of_nothing,
      (Value.map_rename_of_nothing naming ordinary).symm⟩
  refine forms.bind ?_
  rintro later more forms _ ⟨ordinary, rfl⟩
  exact alike_evaluateForms naming agree host (Nat.lt_of_lt_of_le inside more.1) .nil ordinary

/-- **A file is loaded alike in worlds of which one follows the other.** -/
theorem alike_load (path : String) :
    naming.Alike extent naming.values (operations.load ⟨frame⟩ host path)
      (Interpreter.load ⟨naming.frame frame⟩ host path) := by
  have call : (Value.list [.symbol "load-file", .string path]).IsOrdinary .nothing := by
    refine .list ?_
    simp only [List.forall_mem_cons]
    exact ⟨.symbol isReadableName_loadFile, .string path, List.forall_mem_nil _⟩
  have evaluated := alike_evaluate naming agree host.files host.fuel extent host.room _ frame
    call.of_nothing inside
  rw [Value.rename_of_nothing naming call] at evaluated
  exact evaluated

omit agree in
theorem alike_evaluateAndPrint (source : String) :
    naming.Alike extent texts (Interpreter.evaluateAndPrint ⟨frame⟩ host source)
      (Interpreter.evaluateAndPrint ⟨naming.frame frame⟩ host source) := by
  have evaluated := alike_evaluateSource naming Operations.agree_call host inside source
  rw [Operations.evaluateSource_call] at evaluated
  refine evaluated.bind ?_
  rintro later more value _ ⟨ordinary, rfl⟩
  rw [Value.render_rename]
  exact alike_text (ordinary.gives_render .readable host.room)

end Source

section Building

theorem alike_loadPackaged {frame : FrameId} (inside : frame < extent.frames)
    (texts : List (String × String)) :
    naming.Alike extent anyResults (host.loadPackaged frame texts)
      (host.loadPackaged (naming.frame frame) texts) := by
  induction texts generalizing extent with
  | nil => exact alike_pure fun _ _ => trivial
  | cons text rest ih =>
    have evaluated := alike_evaluateSource naming Operations.agree_call host inside text.2
    rw [Operations.evaluateSource_call] at evaluated
    refine evaluated.bind fun later more _ _ _ => ?_
    exact ih (Nat.lt_of_lt_of_le inside more.1)

variable {settings : Settings} {prelude : List (String × String)}
variable (loads : ∀ root, host.loadPrelude settings root = host.loadPackaged root prelude)
include loads

theorem alike_newRoot :
    naming.Alike extent naming.frames (host.newRoot settings) (host.newRoot settings) := by
  refine (alike_newFrame none).bind ?_
  rintro later more root _ ⟨inside, rfl⟩
  have natives : ∀ binding ∈ Host.nativeBindings root,
      IsReadableName binding.1 ∧ binding.2.IsOrdinary later := by
    intro binding member
    obtain ⟨operation, _, rfl⟩ := List.mem_map.1 member
    exact ⟨operation.isReadableName_name, .native inside⟩
  have renamed : Host.nativeBindings (naming.frame root) = (Host.nativeBindings root).rename naming := by
    simp [Host.nativeBindings, Bindings.rename]
  rw [renamed]
  refine (alike_defineAll inside natives).bind fun last most _ _ _ => ?_
  have there := Nat.lt_of_lt_of_le inside most.1
  simp only [loads]
  refine (alike_loadPackaged naming host there prelude).bind fun final further _ _ _ => ?_
  exact alike_pure fun _ most => ⟨Nat.lt_of_lt_of_le there (le_trans further most).1, rfl⟩

/-- **Interpreters are built alike in worlds of which one follows the other.** -/
theorem alike_create :
    naming.Alike extent (fun extent interpreter interpreter' =>
        naming.frames extent interpreter.root interpreter'.root)
      (Interpreter.create host settings) (Interpreter.create host settings) := by
  refine (alike_newRoot naming host loads).bind fun later more root root' related => ?_
  exact alike_pure fun _ most => ⟨Nat.lt_of_lt_of_le related.1 most.1, related.2⟩

end Building

end Renaming

/-! ## Preludes -/

namespace Host

variable (host : Host) {settings : Settings}

theorem loadPrelude_of_packaged (packaged : Prelude.isPackaged settings = true) (root : FrameId) :
    host.loadPrelude settings root = host.loadPackaged root Prelude.packaged :=
  if_pos packaged

/-- Files of a prelude that were all evaluated are texts, the same for every root. -/
theorem exists_loadPackaged_eq_loadPaths {root : FrameId} {paths : List Path} {world after : World}
    (loaded : host.loadPaths root paths world = .finished () after) :
    ∃ texts, ∀ root, host.loadPaths root paths = host.loadPackaged root texts := by
  induction paths generalizing world with
  | nil => exact ⟨[], fun _ => rfl⟩
  | cons path rest ih =>
    rw [loadPaths] at loaded
    cases read : Prelude.text host.files path with
    | error failure =>
      rw [read] at loaded
      cases loaded
    | ok text =>
      rw [read] at loaded
      change (host.evaluateSource root text >>= fun _ => host.loadPaths root rest) world = _ at loaded
      rw [Action.bind_apply] at loaded
      cases evaluated : host.evaluateSource root text world with
      | outOfFuel =>
        rw [evaluated] at loaded
        cases loaded
      | failed failure between =>
        rw [evaluated] at loaded
        cases loaded
      | finished value between =>
        rw [evaluated] at loaded
        obtain ⟨texts, same⟩ := ih loaded
        refine ⟨(path.text, text) :: texts, fun root => ?_⟩
        rw [loadPaths, read, loadPackaged, ← same]
        rfl

/-- **A prelude that was evaluated is a list of texts, the same for every root.** -/
theorem exists_loadPackaged_eq {root : FrameId} {world after : World}
    (loaded : host.loadPrelude settings root world = .finished () after) :
    ∃ texts, ∀ root, host.loadPrelude settings root = host.loadPackaged root texts := by
  unfold loadPrelude at loaded ⊢
  split at loaded
  · next packaged => exact ⟨Prelude.packaged, fun _ => if_pos packaged⟩
  · next own =>
    simp only [own]
    cases found : Prelude.paths settings host.files with
    | ok paths =>
      rw [found] at loaded
      exact host.exists_loadPackaged_eq_loadPaths loaded
    | error fault =>
      rw [found] at loaded
      cases loaded

theorem exists_loadPackaged_eq_of_newRoot {root : FrameId} {world after : World}
    (built : host.newRoot settings world = .finished root after) :
    ∃ texts, ∀ root, host.loadPrelude settings root = host.loadPackaged root texts := by
  rw [newRoot, Action.newFrame_bind] at built
  generalize nativeBindings world.heap.size = bindings at built
  rw [Action.bind_apply] at built
  cases defined : Action.defineAll world.heap.size bindings
      { world with heap := world.heap.push none } with
  | outOfFuel =>
    rw [defined] at built
    cases built
  | failed failure between =>
    rw [defined] at built
    cases built
  | finished value between =>
    rw [defined] at built
    obtain ⟨_, _, loaded⟩ := Action.finished_of_bind_pure built
    exact host.exists_loadPackaged_eq loaded

end Host

end Lisp
