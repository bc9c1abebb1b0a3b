import Mathlib
import Lisp.Proofs.Calls
import Lisp.Proofs.Definitions
import Lisp.Proofs.Direct
import Lisp.Proofs.Sessions
import Lisp.Proofs.WrappedText

/-!
# What `load-file` does

The packaged prelude makes `load-file` a closure that wraps the text of a file into one
form, reads that form and evaluates it in the root.  A new interpreter binds the name to
that closure, beside the native operations (`Interpreter.bindings_of_create`).

As long as the names that the closure uses stay bound as they are, loading a file is
reading the first form of its wrapped text and evaluating that form in the root, all
inside the call (`CanLoad.evaluate_load`).
-/

set_option autoImplicit false

namespace Lisp

/-! ## The definition -/

/-- The body of `load-file`. -/
def loadFileBody : Value :=
  .list [.symbol "eval", .list [.symbol "read-string",
    .list [.symbol "str", .string "(do ", .list [.symbol "slurp", .symbol "f"], .string "\nnil)"]]]

/-- The only form of the packaged prelude. -/
def loadFileDefinition : Value :=
  .list [.symbol "def!", .symbol "load-file",
    .list [.symbol "fn*", .list [.symbol "f"], loadFileBody]]

/-- The native operations that the body of `load-file` calls. -/
def loadingOperations : List Builtin :=
  [.evaluate, .readText, .concatenate, .readFile]

/-- The names that loading a file looks up in the root. -/
def loadingNames : List String :=
  ["load-file", "eval", "read-string", "str", "slurp"]

theorem name_mem_loadingNames :
    ∀ operation ∈ loadingOperations, operation.name ∈ loadingNames := by
  decide

/-- No native operation has the name of `load-file` or of its parameter. -/
theorem Builtin.name_ne (operation : Builtin) :
    "load-file" ≠ operation.name ∧ "f" ≠ operation.name := by
  cases operation <;> decide

/-- What bindings hold when the names that loading a file looks up have the values that
they have in a new root. -/
structure HoldsLoading (root : FrameId) (bindings : Bindings) : Prop where
  closure : ∃ identity, bindings.find? "load-file" =
    some (.closure identity ["f"] loadFileBody root)
  native : ∀ operation ∈ loadingOperations,
    bindings.find? operation.name = some (.native operation root)

/-! ## Evaluating the definition -/

section Definition

variable {files : FileTree} {fuel : Nat} {room : Room} {root : FrameId} {world : World}

/-- The world in which `load-file` is defined. -/
def World.definingLoadFile (world : World) (root : FrameId) : World :=
  { world with
    closures := world.closures + 1
    heap := world.heap.define root "load-file"
      (.closure world.closures ["f"] loadFileBody root) }

theorem step_definition :
    step files (evaluate files fuel) room loadFileDefinition root world =
      SpecialForm.performDefine (evaluate files fuel) room root [.symbol "load-file",
        .list [.symbol "fn*", .list [.symbol "f"], loadFileBody]] world :=
  rfl

theorem evaluate_definition {inner : Room} (entered : room.enter? Room.evaluation = some inner) :
    evaluate files (fuel + 2) room loadFileDefinition root world =
      .finished (.closure world.closures ["f"] loadFileBody root) (world.definingLoadFile root) := by
  have function : evaluate files (fuel + 1) inner
      (.list [.symbol "fn*", .list [.symbol "f"], loadFileBody]) root world =
      .finished (.closure world.closures ["f"] loadFileBody root)
        { world with closures := world.closures + 1 } := by
    rw [evaluate]
    rfl
  exact evaluate_define entered function

/-- However the definition is evaluated, if that finishes it defines `load-file`. -/
theorem world_of_definition {value : Value} {after : World}
    (finished : evaluate files fuel room loadFileDefinition root world = .finished value after) :
    after = world.definingLoadFile root := by
  have enough := evaluate_refines files (Nat.le_add_right fuel 2) room loadFileDefinition root world
    (by rw [finished]; simp)
  rw [finished] at enough
  cases entered : room.enter? Room.evaluation with
  | some inner =>
    rw [evaluate_definition entered] at enough
    cases enough
    rfl
  | none =>
    have stepped : step files (evaluate files (fuel + 1)) room loadFileDefinition root world =
        .failed (.fault .stackExhausted) world := by
      rw [step_definition]
      simp only [SpecialForm.performDefine, Action.bind_apply, Evaluator.nested, entered]
      rfl
    rw [evaluate, stepped] at enough
    cases enough

end Definition

/-! ## A new root -/

/-- The tokens of the packaged prelude. -/
def preludeTokens : List String :=
  ["(", "def!", "load-file", "(", "fn*", "(", "f", ")", "(", "eval", "(", "read-string", "(", "str",
    "\"(do \"", "(", "slurp", "f", ")", "\"\\nnil)\"", ")", ")", ")", ")", ")"]

theorem tokenize_packaged {name text : String} (packaged : (name, text) ∈ Prelude.packaged) :
    tokenize text = preludeTokens := by
  cases List.mem_singleton.1 packaged
  simp only [tokenize_eq, String.toList_append]
  cbv

theorem readNested_preludeTokens :
    readNested .unlimited preludeTokens = ⟨.ok loadFileDefinition, []⟩ := by
  rw [readNested, readForm]
  rfl

/-- The packaged prelude is one file, and the definition of `load-file` its only form. -/
theorem exists_packaged_eq : ∃ name text, Prelude.packaged = [(name, text)] ∧
    readProgram .unlimited text = .ok [loadFileDefinition] := by
  obtain ⟨⟨name, text⟩, packaged⟩ : ∃ file, Prelude.packaged = [file] := ⟨_, rfl⟩
  have tokens := tokenize_packaged (by rw [packaged]; exact List.mem_singleton_self (name, text))
  refine ⟨name, text, packaged, ?_⟩
  rw [readProgram, readSource, tokens, readAll, readAllOnto_of_ok readNested_preludeTokens,
    readAllOnto_nil]
  rfl

namespace Host

variable (host : Host) {root : FrameId}

theorem evaluateSource_of_form {source : String} {form : Value}
    (reads : readProgram host.room source = .ok [form]) :
    host.evaluateSource root source = host.evaluate form root := by
  rw [evaluateSource, reads]
  exact bind_pure (host.evaluate form root)

/-- The packaged prelude, if it can be evaluated, defines `load-file`. -/
theorem world_of_loadPackaged {world after : World}
    (loaded : host.loadPackaged root Prelude.packaged world = .finished () after) :
    after = world.definingLoadFile root := by
  obtain ⟨name, text, packaged, reads⟩ := exists_packaged_eq
  rw [packaged, loadPackaged] at loaded
  obtain ⟨value, _, evaluated⟩ := Action.finished_of_bind_pure loaded
  cases forms : readProgram host.room text with
  | error failure =>
    rw [evaluateSource, forms] at evaluated
    cases evaluated
  | ok forms' =>
    have atMost : host.room.AtMost .unlimited := by cases host.room <;> trivial
    have same := readProgram_of_atMost atMost forms
    rw [reads] at same
    cases same
    rw [host.evaluateSource_of_form forms] at evaluated
    exact world_of_definition evaluated

variable {settings : Settings} (packaged : Prelude.isPackaged settings = true)
include packaged

/-- A root is built from the native operations and the packaged prelude. -/
theorem newRoot_eq (before : World) :
    ∃ filled : World, before.heap.size < filled.heap.size ∧
      filled.heap.bindings before.heap.size =
        Bindings.defineAll [] (nativeBindings before.heap.size) ∧
      host.newRoot settings before =
        (host.loadPackaged before.heap.size Prelude.packaged >>= fun _ =>
          pure before.heap.size) filled := by
  have present : before.heap.size < (before.heap.push none).size := by simp
  have empty : (before.heap.push none).bindings before.heap.size = [] := by
    rw [Heap.bindings, Heap.frame?_push, if_pos rfl]
    rfl
  rw [newRoot, Action.newFrame_bind]
  generalize nativeBindings before.heap.size = bindings
  refine ⟨{ before with heap := (before.heap.push none).defineAll before.heap.size bindings },
    by simp, ?_, ?_⟩
  · rw [Heap.bindings_defineAll present, if_pos rfl, empty]
  · rw [Action.bind_apply, Action.defineAll_eq]
    simp only [loadPrelude, packaged, if_true]

/-- **A new root binds the native operations and `load-file`, and nothing else.** -/
theorem bindings_of_newRoot {before after : World} {root : FrameId}
    (built : host.newRoot settings before = .finished root after) :
    ∃ identity, after.heap.bindings root =
      (Bindings.defineAll [] (nativeBindings root)).define "load-file"
        (.closure identity ["f"] loadFileBody root) := by
  obtain ⟨filled, inside, natives, built'⟩ := host.newRoot_eq packaged before
  rw [built'] at built
  obtain ⟨_, rfl, loaded⟩ := Action.finished_of_bind_pure built
  obtain rfl := host.world_of_loadPackaged loaded
  refine ⟨filled.closures, ?_⟩
  rw [World.definingLoadFile, Heap.bindings_define _ _ _ _ _ inside, if_pos rfl, natives]

end Host

/-- The bindings of a new root hold what loading a file calls. -/
theorem holdsLoading_new (root : FrameId) (identity : Nat) :
    HoldsLoading root ((Bindings.defineAll [] (Host.nativeBindings root)).define "load-file"
      (.closure identity ["f"] loadFileBody root)) where
  closure := ⟨identity, by rw [Bindings.find?_define, if_pos rfl]⟩
  native operation _ := by
    have names : (Host.nativeBindings root).map Prod.fst = Builtin.all.map Builtin.name := by
      rw [Host.nativeBindings, List.map_map]
      rfl
    have different : ((Host.nativeBindings root).map Prod.fst).Nodup := by
      rw [names]
      decide
    have known : operation ∈ Builtin.all := by cases operation <;> decide
    have member : (operation.name, Value.native operation root) ∈ Host.nativeBindings root :=
      List.mem_map.2 ⟨operation, known, rfl⟩
    rw [Bindings.find?_define, if_neg operation.name_ne.1]
    exact Bindings.find?_defineAll_of_mem different member []

namespace Interpreter

variable {settings : Settings} (packaged : Prelude.isPackaged settings = true)
include packaged

/-- A new interpreter's root binds the native operations and `load-file`. -/
theorem bindings_of_create {host : Host} {interpreter : Interpreter} {before start : World}
    (created : create host settings before = .finished interpreter start) :
    ∃ identity, start.heap.bindings interpreter.root =
      (Bindings.defineAll [] (Host.nativeBindings interpreter.root)).define "load-file"
        (.closure identity ["f"] loadFileBody interpreter.root) := by
  obtain ⟨root, rfl, built⟩ := Action.finished_of_bind_pure created
  exact host.bindings_of_newRoot packaged built

/-- A new interpreter's root holds what loading a file calls. -/
theorem holdsLoading_of_create {host : Host} {interpreter : Interpreter} {before start : World}
    (created : create host settings before = .finished interpreter start) :
    HoldsLoading interpreter.root (start.heap.bindings interpreter.root) := by
  obtain ⟨identity, bindings⟩ := bindings_of_create packaged created
  rw [bindings]
  exact holdsLoading_new interpreter.root identity

/-- With unlimited room and some fuel an interpreter can be made. -/
theorem exists_create (files : FileTree) (fuel : Nat) (before : World) :
    ∃ start, create ⟨files, fuel + 2, .unlimited⟩ settings before =
      .finished ⟨before.heap.size⟩ start := by
  obtain ⟨filled, _, _, built⟩ := Host.newRoot_eq ⟨files, fuel + 2, .unlimited⟩ packaged before
  obtain ⟨name, text, prelude, reads⟩ := exists_packaged_eq
  refine ⟨filled.definingLoadFile before.heap.size, ?_⟩
  have evaluated : Host.evaluateSource ⟨files, fuel + 2, .unlimited⟩ before.heap.size text filled =
      .finished (.closure filled.closures ["f"] loadFileBody before.heap.size)
        (filled.definingLoadFile before.heap.size) := by
    rw [Host.evaluateSource_of_form _ reads]
    exact evaluate_definition rfl
  rw [create, Action.bind_apply, built, prelude, Host.loadPackaged, Action.bind_apply,
    Action.bind_apply, evaluated]
  rfl

end Interpreter

/-! ## Loading a file -/

/-- The world in which the body of `load-file` is evaluated. -/
def World.loading (world : World) (root : FrameId) (path : String) : World :=
  world.calling root "f" (.string path)

/-- What a world has to hold for loading a file from it in a root. -/
structure CanLoad (files : FileTree) (root : FrameId) (world : World) (path text : String) : Prop where
  holds : HoldsLoading root (world.heap.bindings root)
  readable : Builtin.fileText files [.string path] = .ok (.string text)

/-- Bindings that agree on the names with those of a new root hold what loading calls. -/
theorem HoldsLoading.of_original {root : FrameId} {bindings original : Bindings}
    (holds : HoldsLoading root original)
    (same : ∀ name ∈ loadingNames, bindings.find? name = original.find? name) :
    HoldsLoading root bindings where
  closure := by
    rw [same _ (by decide)]
    exact holds.closure
  native operation called := by
    rw [same _ (name_mem_loadingNames operation called)]
    exact holds.native operation called

/-- An interpreter can load a file if the names that loading looks up are bound as in its new
root. -/
theorem Interpreter.canLoad_of_original {maker : Host} {settings : Settings}
    {interpreter : Interpreter} {before start world : World} {files : FileTree}
    {path text : String} (packaged : Prelude.isPackaged settings = true)
    (created : create maker settings before = .finished interpreter start)
    (original : ∀ name ∈ loadingNames, (world.heap.bindings interpreter.root).find? name =
      (start.heap.bindings interpreter.root).find? name)
    (readable : Builtin.fileText files [.string path] = .ok (.string text)) :
    CanLoad files interpreter.root world path text :=
  ⟨(holdsLoading_of_create packaged created).of_original original, readable⟩

/-- A host with unlimited room and one file. -/
def hostWith (text : String) : Host :=
  ⟨.ofFiles [("f.mal", .file text.toUTF8.toList)], 6, .unlimited⟩

/-- Joining the parts of a wrapped text. -/
theorem joined_wrapped {room inner : Room} (entered : room.enter? Room.writing = some inner)
    (text : String) :
    Builtin.joined room [.string "(do ", .string text, .string "\nnil)"] =
      .ok (.string (wrapped text)) := by
  have display : ∀ text, Value.render .display room (.string text) = .ok text := by
    intro text
    rw [Value.render, entered]
    rfl
  simp only [Builtin.joined, Value.renderItems, display, wrapped]
  simp [bind, Except.bind, pure, Except.pure, String.join]

namespace CanLoad

variable {files : FileTree} {fuel : Nat} {room : Room} {root : FrameId} {world : World}
variable {path text : String} (can : CanLoad files root world path text)
include can

/-- Inside the call of `load-file`, the names that it looks up have their values. -/
theorem hasValue_native (operation : Builtin) (called : operation ∈ loadingOperations) (fuel : Nat)
    (room : Room) :
    HasValue files (fuel + 1) room world.heap.size (world.loading root path)
      (.symbol operation.name) (.native operation root) :=
  hasValue_symbol (world.lookup?_calling "f" _ (can.holds.native operation called)
    operation.name_ne.2)

theorem hasValue_fileText (roomy : (Room.frames 3).AtMost room) :
    HasValue files (fuel + 2) room world.heap.size (world.loading root path)
      (.list [.symbol "slurp", .symbol "f"]) (.string text) := by
  obtain ⟨inner, entered, _⟩ := Room.exists_enter? 0 Room.evaluation roomy
  have operation : HasValue files (fuel + 1) inner world.heap.size (world.loading root path)
      (.symbol "slurp") (.native .readFile root) :=
    can.hasValue_native .readFile (by decide) fuel inner
  have argument : HasValue files (fuel + 1) inner world.heap.size (world.loading root path)
      (.symbol "f") (.string path) :=
    hasValue_symbol (world.lookup?_calling_parameter root "f" (.string path))
  have called : Builtin.readFile.call files (evaluate files (fuel + 1)) room root [.string path]
      (world.loading root path) = .finished (.string text) (world.loading root path) := by
    simp only [Builtin.call, can.readable]
    rfl
  exact hasValue_call rfl entered (.cons operation (.cons argument .nil)) called

theorem hasValue_wrapped (roomy : (Room.frames 6).AtMost room) :
    HasValue files (fuel + 3) room world.heap.size (world.loading root path)
      (.list [.symbol "str", .string "(do ", .list [.symbol "slurp", .symbol "f"], .string "\nnil)"])
      (.string (wrapped text)) := by
  obtain ⟨inner, entered, roomy'⟩ := Room.exists_enter? 3 Room.evaluation roomy
  obtain ⟨_, written, _⟩ := Room.exists_enter? 5 Room.writing roomy
  have operation : HasValue files (fuel + 2) inner world.heap.size (world.loading root path)
      (.symbol "str") (.native .concatenate root) :=
    can.hasValue_native .concatenate (by decide) (fuel + 1) inner
  have file := @hasValue_fileText _ fuel inner _ _ _ _ can roomy'
  have called : Builtin.concatenate.call files (evaluate files (fuel + 2)) room root
      [.string "(do ", .string text, .string "\nnil)"] (world.loading root path) =
        .finished (.string (wrapped text)) (world.loading root path) := by
    simp only [Builtin.call, joined_wrapped written]
    rfl
  exact hasValue_call rfl entered (.cons operation (.cons (hasValue_string _)
    (.cons file (.cons (hasValue_string _) .nil)))) called

/-- The form that `load-file` evaluates is the first one of the wrapped text. -/
theorem evaluate_read (roomy : (Room.frames 9).AtMost room) :
    evaluate files (fuel + 4) room
      (.list [.symbol "read-string",
        .list [.symbol "str", .string "(do ", .list [.symbol "slurp", .symbol "f"], .string "\nnil)"]])
      world.heap.size (world.loading root path) =
        Action.ofExcept (readText room (wrapped text)) (world.loading root path) := by
  obtain ⟨inner, entered, roomy'⟩ := Room.exists_enter? 6 Room.evaluation roomy
  have operation : HasValue files (fuel + 3) inner world.heap.size (world.loading root path)
      (.symbol "read-string") (.native .readText root) :=
    can.hasValue_native .readText (by decide) (fuel + 2) inner
  have source := @hasValue_wrapped _ fuel inner _ _ _ _ can roomy'
  have called : Builtin.readText.call files (evaluate files (fuel + 3)) room root
      [.string (wrapped text)] = Action.ofExcept (readText room (wrapped text)) := rfl
  rw [evaluate_native rfl entered (.cons operation (.cons source .nil)), called]
  intro after exhausted
  rw [called] at exhausted
  cases reads : readText room (wrapped text) with
  | ok form =>
    rw [reads] at exhausted
    cases exhausted
  | error failure =>
    rw [reads] at exhausted
    cases exhausted
    obtain ⟨_, impossible, _⟩ := readText_fails reads
    cases impossible

/-- **The body of `load-file` reads the first form of the wrapped text, and evaluates it in
the root if that succeeds.** -/
theorem evaluate_body (roomy : (Room.frames 12).AtMost room) :
    ∃ inner within, room.enter? Room.evaluation = some inner ∧
      room.enter? Room.reentry = some within ∧
      evaluate files (fuel + 5) room loadFileBody world.heap.size (world.loading root path) =
        match readText inner (wrapped text) with
        | .ok form => evaluate files (fuel + 4) within form root (world.loading root path)
        | .error failure => .failed failure (world.loading root path) := by
  obtain ⟨inner, entered, roomy'⟩ := Room.exists_enter? 9 Room.evaluation roomy
  obtain ⟨within, reentered, _⟩ := Room.exists_enter? 6 Room.reentry roomy
  refine ⟨inner, within, entered, reentered, ?_⟩
  have operation : HasValue files (fuel + 4) inner world.heap.size (world.loading root path)
      (.symbol "eval") (.native .evaluate root) :=
    can.hasValue_native .evaluate (by decide) (fuel + 3) inner
  have read := @evaluate_read _ fuel inner _ _ _ _ can roomy'
  cases reads : readText inner (wrapped text) with
  | ok form =>
    rw [reads] at read
    have called : Builtin.evaluate.call files (evaluate files (fuel + 4)) room root [form]
        (world.loading root path) =
          evaluate files (fuel + 4) within form root (world.loading root path) :=
      nested_of_enter? reentered form root _
    rw [loadFileBody, evaluate_native rfl entered (.cons operation (.cons read .nil)), called]
    rw [called]
    exact evaluate_ne_stackExhausted _ _ _ _ _ _
  | error failure =>
    rw [reads] at read
    exact evaluate_of_operand_fails rfl entered operation read

/-- **Loading a file reads the first form of its wrapped text, and evaluates it in the root if
that succeeds.** -/
theorem evaluate_load (roomy : (Room.frames 12).AtMost room) :
    ∃ inner within, room.enter? Room.evaluation = some inner ∧
      room.enter? Room.reentry = some within ∧
      evaluate files (fuel + 6) room (.list [.symbol "load-file", .string path]) root world =
        match readText inner (wrapped text) with
        | .ok form => evaluate files (fuel + 4) within form root (world.loading root path)
        | .error failure => .failed failure (world.loading root path) := by
  obtain ⟨inner, within, entered, reentered, body⟩ := @evaluate_body _ fuel room _ _ _ _ can roomy
  obtain ⟨identity, bound⟩ := can.holds.closure
  have closure : HasValue files (fuel + 5) inner root world (.symbol "load-file")
      (.closure identity ["f"] loadFileBody root) :=
    hasValue_symbol (Heap.lookup?_of_find? bound)
  refine ⟨inner, within, entered, reentered, ?_⟩
  rw [evaluate_call rfl entered (.cons closure (.cons (hasValue_string path) .nil))]
  exact body

/-- With unlimited room, loading a file is evaluating the first form of its wrapped text. -/
theorem load_unlimited {form : Value} (reads : readText .unlimited (wrapped text) = .ok form) :
    Interpreter.load ⟨root⟩ ⟨files, fuel + 6, .unlimited⟩ path world =
      evaluate files (fuel + 4) .unlimited form root (world.loading root path) := by
  obtain ⟨inner, within, entered, reentered, loads⟩ :=
    @evaluate_load _ fuel .unlimited _ _ _ _ can trivial
  cases entered
  cases reentered
  rw [reads] at loads
  exact loads

end CanLoad

end Lisp
