import Lisp.Proofs.MalformedFiles
import Lisp.Proofs.OrdinarySessions
import Lisp.Proofs.Refinement

/-!
# Loading files that can be read

A file whose text can be read is loaded as its text is evaluated (`load_readable_file`).
What `load-file` evaluates is one `do` of the forms of the text with `nil` behind them, in a
call that has made a frame of its own.  So the forms are evaluated one after the other, as
those of a source text are, in a world with a frame more; frames that are made from there on
are known by the next name each (`Renaming.skipping`).

Both runs go on side by side form by form.  One ends just when the other does, and if a form
fails, it fails in both, with the same failure and after the same effects.  It plays no part
what the text defines: nothing that `load-file` uses is looked up again once the first form
is evaluated.
-/

set_option autoImplicit false

namespace Lisp

/-! ## Frames after another one -/

namespace Renaming

/-- The renaming under which a new frame has taken the name `place`: frames before it keep
their names, and the others have the next ones. -/
def skipping (place : FrameId) : Renaming where
  frame frame := if frame < place then frame else frame + 1
  identity := id
  frame_injective := by
    intro frame frame' same
    dsimp only at same
    split at same <;> split at same <;> grind
  identity_injective := Function.injective_id

theorem skipping_of_lt {place frame : FrameId} (before : frame < place) :
    (skipping place).frame frame = frame :=
  if_pos before

theorem skipping_of_le {place frame : FrameId} (behind : place ≤ frame) :
    (skipping place).frame frame = frame + 1 :=
  if_neg (Nat.not_lt_of_le behind)

theorem fixes_skipping (world : World) : (skipping world.heap.size).Fixes world.extent :=
  ⟨skipping_of_lt, fun _ => rfl⟩

/-- **Inside the call of `load-file` the world is as outside but for one more frame.** -/
theorem follows_loading {world : World} (ordinary : world.IsOrdinary) (root : FrameId)
    (path : String) : (skipping world.heap.size).Follows world (world.loading root path) where
  ordinary := ordinary
  frame more := by
    rw [skipping_of_le (Nat.le_add_right _ _)]
    simp [World.loading, World.calling, Nat.add_right_comm]
  identity _ := rfl
  bindings frame := by
    rcases Nat.lt_or_ge frame world.heap.size with before | behind
    · rw [skipping_of_lt before, ordinary.bindings_rename_eq (fixes_skipping world),
        World.loading, World.calling, Heap.bindings_define _ _ _ _ _ (by simp),
        if_neg (Nat.ne_of_lt before), Heap.bindings_push]
    · rw [skipping_of_le behind, Heap.bindings_of_absent behind, Heap.bindings_of_absent]
      · rfl
      · simpa [World.loading] using behind
  outer? frame := by
    rcases Nat.lt_or_ge frame world.heap.size with before | behind
    · rw [skipping_of_lt before, World.loading, World.calling, Heap.outer?_define,
        Heap.outer?_push, if_neg (Nat.ne_of_lt before)]
      cases around : world.heap.outer? frame with
      | none => rfl
      | some outer =>
        have inside := Nat.lt_trans (Heap.lt_of_outer? around) before
        rw [Option.map_some, skipping_of_lt inside]
    · rw [skipping_of_le behind, Heap.outer?_of_absent behind, Heap.outer?_of_absent]
      · rfl
      · simpa [World.loading] using behind

end Renaming

/-! ## Forms one after the other -/

section Forms

variable {files : FileTree} {root : FrameId} {forms : List Value} {world : World}

/-- Forms of a source text are evaluated one after the other; what counts is the last value. -/
theorem Host.evaluateForms_eq (files : FileTree) (fuel : Nat) (root : FrameId) (last : Value)
    (forms : List Value) : evaluateForms ⟨files, fuel, .unlimited⟩ root last forms =
      Direct.each (direct files fuel) root forms >>= fun values => pure (values.getLastD last) := by
  induction forms generalizing last with
  | nil => rfl
  | cons form rest ih =>
    simp only [evaluateForms, Direct.each, Host.evaluate, evaluate_eq_direct, ih, bind_assoc,
      pure_bind, List.getLastD_cons]

/-- A `do` with one more form at its end evaluates the others first. -/
theorem Direct.sequence_append (recur : Recursion) (frame : FrameId) (forms : List Value)
    (last : Value) : sequence recur frame (forms ++ [last]) =
      each recur frame forms >>= fun _ => recur last frame := by
  induction forms with
  | nil => rfl
  | cons form rest ih =>
    obtain ⟨second, others, more⟩ := List.exists_cons_of_ne_nil (List.append_ne_nil_of_right_ne_nil
      rest (List.cons_ne_nil last []))
    rw [List.cons_append, more, sequence, ← more, ih]
    · simp only [each, bind_assoc, pure_bind]
    · simp

/-- How forms end of which one fails: with its failure, when those before it are evaluated. -/
theorem eachEnds_failed_iff {failure : Failure} {after : World} :
    EachEnds files root forms world (.failed failure after) ↔
      ∃ before form rest values between, forms = before ++ form :: rest ∧
        EachEnds files root before world (.finished values between) ∧
        EvaluationEnds files form root between (.failed failure after) := by
  constructor
  · intro ends
    induction forms generalizing world with
    | nil => cases ends
    | cons form rest ih =>
      cases ends with
      | first_failed first => exact ⟨[], form, rest, [], world, rfl, .none world, first⟩
      | later_failed first others =>
        obtain ⟨before, failing, behind, values, between, rfl, passed, fails⟩ := ih others
        exact ⟨form :: before, failing, behind, _, between, rfl, .finished first passed, fails⟩
  · rintro ⟨before, form, rest, values, between, rfl, passed, fails⟩
    induction before generalizing world values with
    | nil =>
      cases passed
      exact .first_failed fails
    | cons first others ih =>
      cases passed with
      | finished one further => exact .later_failed one (ih _ further)

end Forms

/-! ## How a text and a file end -/

namespace Interpreter

variable (interpreter : Interpreter) (files : FileTree)

/-- How evaluating a source text with unlimited room ends. -/
abbrev TextEnds (text : String) (world : World) (outcome : Outcome Value) : Prop :=
  Ends (fun fuel => interpreter.evaluate ⟨files, fuel, .unlimited⟩ text) world outcome

/-- How loading a file with unlimited room ends. -/
abbrev FileEnds (path : String) (world : World) (outcome : Outcome Value) : Prop :=
  Ends (fun fuel => interpreter.load ⟨files, fuel, .unlimited⟩ path) world outcome

theorem stable_load (path : String) :
    Stable fun fuel => interpreter.load ⟨files, fuel, .unlimited⟩ path :=
  stable_evaluate files .unlimited _ interpreter.root

end Interpreter

theorem isOrdinary_of_readProgram {room : Room} {text : String} {forms : List Value}
    (accepted : readProgram room text = .ok forms) : ∀ form ∈ forms, form.IsOrdinary .nothing := by
  have gives := gives_ordinary_readProgram room text
  rwa [accepted] at gives

section Text

variable {files : FileTree} {text : String} {forms : List Value}
variable (accepted : readProgram .unlimited text = .ok forms) {world : World}
include accepted

/-- **Evaluating a text ends as its forms do one after the other, with the last value.** -/
theorem Interpreter.textEnds_iff (interpreter : Interpreter) {outcome : Outcome Value} :
    interpreter.TextEnds files text world outcome ↔
      (∃ failure after, EachEnds files interpreter.root forms world (.failed failure after) ∧
        outcome = .failed failure after) ∨
      ∃ values after, EachEnds files interpreter.root forms world (.finished values after) ∧
        outcome = .finished (values.getLastD .nil) after := by
  have evaluates : ∀ fuel, interpreter.evaluate ⟨files, fuel, .unlimited⟩ text =
      Direct.each (direct files fuel) interpreter.root forms >>= fun values =>
        pure (values.getLastD .nil) := by
    intro fuel
    rw [← Host.evaluateForms_eq, evaluate, Host.evaluateSource, accepted]
    rfl
  simp only [TextEnds, evaluates, ends_bind_pure_iff (stable_each files interpreter.root forms),
    ends_each_iff]

/-- **Loading a file ends as its forms do one after the other inside the call, with `nil`.** -/
theorem CanLoad.fileEnds_iff {interpreter : Interpreter} {path : String}
    (can : CanLoad files interpreter.root world path text) {outcome : Outcome Value} :
    interpreter.FileEnds files path world outcome ↔
      (∃ failure after, EachEnds files interpreter.root forms
          (world.loading interpreter.root path) (.failed failure after) ∧
        outcome = .failed failure after) ∨
      ∃ values after, EachEnds files interpreter.root forms
          (world.loading interpreter.root path) (.finished values after) ∧
        outcome = .finished .nil after := by
  have loads : ∀ fuel, interpreter.load ⟨files, fuel + 6, .unlimited⟩ path world =
      (Direct.each (direct files (fuel + 3)) interpreter.root forms >>= fun _ => pure .nil)
        (world.loading interpreter.root path) := by
    intro fuel
    rw [can.load_unlimited (readText_wrapped_of_readable accepted), evaluate_eq_direct]
    exact congrFun (Direct.sequence_append (direct files (fuel + 3)) interpreter.root forms .nil) _
  have stable : Stable fun fuel =>
      Direct.each (direct files fuel) interpreter.root forms >>= fun _ => pure Value.nil :=
    (stable_each files interpreter.root forms).bind fun _ => stable_const _
  rw [Interpreter.FileEnds, ends_iff_of_shifted (interpreter.stable_load files path) stable loads,
    ends_bind_pure_iff (stable_each files interpreter.root forms)]
  simp only [ends_each_iff]

end Text

/-! ## Side by side -/

namespace Renaming

variable {naming : Renaming} {extent : Extent} {files : FileTree} {frame : FrameId}

/-- **Of actions that are alike whatever the fuel, one ends just when the other does.** -/
theorem ends_of_alike {α β : Type} {related : Extent → α → β → Prop} {actions : Nat → Action α}
    {actions' : Nat → Action β}
    (alike : ∀ fuel, naming.Alike extent related (actions fuel) (actions' fuel))
    {world world' : World} (follows : naming.Follows world world') (enough : extent ≤ world.extent) :
    (∀ outcome, Ends actions world outcome → ∃ outcome', Ends actions' world' outcome' ∧
      naming.EndsAlike related world world' outcome outcome') ∧
    ∀ outcome', Ends actions' world' outcome' → ∃ outcome, Ends actions world outcome := by
  have side_by_side := fun fuel => alike fuel world world' follows enough
  constructor
  · rintro outcome ⟨some_way, fuel, rfl⟩
    exact ⟨_, ⟨mt (side_by_side fuel).outOfFuel_iff.2 some_way, fuel, rfl⟩, side_by_side fuel⟩
  · rintro outcome' ⟨some_way, fuel, rfl⟩
    exact ⟨_, mt (side_by_side fuel).outOfFuel_iff.1 some_way, fuel, rfl⟩

section Direct

variable (naming) (files) (fuel : Nat) (inside : frame < extent.frames)
include inside

theorem alike_direct {form : Value} (ordinary : form.IsOrdinary extent) :
    naming.Alike extent naming.values (direct files fuel form frame)
      (direct files fuel (form.rename naming) (naming.frame frame)) := by
  have evaluated := alike_evaluate naming Operations.agree_call files fuel extent .unlimited form
    frame ordinary inside
  rwa [Operations.evaluate_call, evaluate_eq_direct] at evaluated

/-- Forms in which nothing has a part that has been made are evaluated alike. -/
theorem alike_each {forms : List Value} (each : ∀ form ∈ forms, form.IsOrdinary .nothing) :
    naming.Alike extent naming.lists (Direct.each (direct files fuel) frame forms)
      (Direct.each (direct files fuel) (naming.frame frame) forms) := by
  induction forms generalizing extent with
  | nil => exact alike_pure fun _ _ => ⟨List.forall_mem_nil _, rfl⟩
  | cons form rest ih =>
    obtain ⟨first, others⟩ := List.forall_mem_cons.1 each
    have evaluated := alike_direct naming files fuel inside first.of_nothing
    rw [Value.rename_of_nothing naming first] at evaluated
    refine evaluated.bind ?_
    rintro later more value _ ⟨ordinary, rfl⟩
    refine (ih (Nat.lt_of_lt_of_le inside more.1) others).bind ?_
    rintro last most values _ ⟨each, rfl⟩
    refine alike_pure fun final further => ⟨?_, rfl⟩
    exact List.forall_mem_cons.2 ⟨ordinary.mono (le_trans most further),
      fun value member => (each value member).mono further⟩

end Direct

namespace Follows

variable {root : FrameId} (stays : naming.frame root = root)
variable {world world' : World} (follows : naming.Follows world world')
variable (present : root < world.extent.frames)
include stays follows present

theorem evaluationEnds {form : Value} (ordinary : form.IsOrdinary .nothing) {outcome : Outcome Value}
    (ends : EvaluationEnds files form root world outcome) :
    ∃ outcome', EvaluationEnds files form root world' outcome' ∧
      naming.EndsAlike naming.values world world' outcome outcome' := by
  have alike := fun fuel => alike_direct naming files fuel present (@ordinary.of_nothing _ _)
  rw [Value.rename_of_nothing naming ordinary, stays] at alike
  simp only [evaluationEnds_iff] at ends ⊢
  exact (ends_of_alike alike follows (le_refl _)).1 outcome ends

theorem eachEnds {forms : List Value} (each : ∀ form ∈ forms, form.IsOrdinary .nothing) :
    (∀ outcome, EachEnds files root forms world outcome →
      ∃ outcome', EachEnds files root forms world' outcome' ∧
        naming.EndsAlike naming.lists world world' outcome outcome') ∧
    ∀ outcome', EachEnds files root forms world' outcome' →
      ∃ outcome, EachEnds files root forms world outcome := by
  have alike := fun fuel => alike_each naming files fuel present each
  rw [stays] at alike
  simp only [← ends_each_iff]
  exact ends_of_alike alike follows (le_refl _)

end Follows

end Renaming

/-! ## Loading -/

/-- Whether two runs have come to the same: one world follows the other, so that the same
names are bound in the same way in all frames and in the root, and the same has been written. -/
structure Renaming.SameEffects (naming : Renaming) (root : FrameId) (after after' : World) : Prop where
  follows : naming.Follows after after'
  bindings : after'.heap.bindings root = (after.heap.bindings root).rename naming
  output : after'.output = after.output

theorem Renaming.Reaches.sameEffects {naming : Renaming} {root : FrameId}
    {world world' after after' : World} (reaches : naming.Reaches world world' after after')
    (stays : naming.frame root = root) (output : world'.output = world.output) :
    naming.SameEffects root after after' where
  follows := reaches.follows
  bindings := by
    have bindings := reaches.follows.bindings root
    rwa [stays] at bindings
  output := by
    obtain ⟨text, left, right⟩ := reaches.text
    rw [left, right, output]

/-- How forms end that are evaluated one after the other, and how a file ends that holds
them: after the last, with its value and with `nil`, or both at the same form, with the same
failure, and with the same effects of the forms before it. -/
inductive LoadsAlike (files : FileTree) (root : FrameId) (forms : List Value) (naming : Renaming)
    (world world' : World) : Outcome Value → Outcome Value → Prop where
  | finished {values values' : List Value} {after after' : World} :
      EachEnds files root forms world (.finished values after) →
      EachEnds files root forms world' (.finished values' after') →
      naming.SameEffects root after after' →
        LoadsAlike files root forms naming world world' (.finished (values.getLastD .nil) after)
          (.finished .nil after')
  | failed {before rest values values' : List Value} {form : Value} {failure : Failure}
      {between between' after after' : World} :
      forms = before ++ form :: rest →
      EachEnds files root before world (.finished values between) →
      EachEnds files root before world' (.finished values' between') →
      naming.SameEffects root between between' →
      EvaluationEnds files form root between (.failed failure after) →
      EvaluationEnds files form root between' (.failed failure after') →
      naming.SameEffects root after after' →
        LoadsAlike files root forms naming world world' (.failed failure after)
          (.failed failure after')

/-- Where a form fails in a world, the same form fails in one that follows. -/
theorem Renaming.Follows.eachEnds_failed {naming : Renaming} {files : FileTree} {root : FrameId}
    (stays : naming.frame root = root) {world world' : World}
    (follows : naming.Follows world world') (present : root < world.extent.frames)
    (output : world'.output = world.output) {forms : List Value}
    (each : ∀ form ∈ forms, form.IsOrdinary .nothing) {failure : Failure} {after : World}
    (fails : EachEnds files root forms world (.failed failure after)) :
    ∃ after', EachEnds files root forms world' (.failed failure after') ∧
      LoadsAlike files root forms naming world world' (.failed failure after)
        (.failed failure after') := by
  obtain ⟨before, form, rest, values, between, rfl, passed, failed⟩ := eachEnds_failed_iff.1 fails
  obtain ⟨ordinary, others⟩ := List.forall_mem_append.1 each
  have first := (List.forall_mem_cons.1 others).1
  obtain ⟨_, passed', alike⟩ := (follows.eachEnds stays present ordinary).1 _ passed
  cases alike with
  | @finished _ values' _ between' reaches _ =>
    have there := Nat.lt_of_lt_of_le present reaches.more.1
    obtain ⟨_, failed', alike⟩ := reaches.follows.evaluationEnds stays there first failed
    cases alike with
    | @failed _ _ after' further _ =>
      refine ⟨after', eachEnds_failed_iff.2 ⟨_, _, _, _, _, rfl, passed', failed'⟩, ?_⟩
      exact .failed rfl passed passed' (reaches.sameEffects stays output) failed failed'
        ((reaches.trans further).sameEffects stays output)

namespace CanLoad

variable {files : FileTree} {interpreter : Interpreter} {path text : String} {forms : List Value}
variable (accepted : readProgram .unlimited text = .ok forms) {world : World}
variable (can : CanLoad files interpreter.root world path text) (ordinary : world.IsOrdinary)
variable (present : interpreter.root < world.extent.frames)
include accepted can ordinary present

/-- As the text ends so does the file. -/
theorem fileEnds_of_textEnds {outcome : Outcome Value}
    (ends : interpreter.TextEnds files text world outcome) :
    ∃ outcome', interpreter.FileEnds files path world outcome' ∧
      LoadsAlike files interpreter.root forms (.skipping world.heap.size) world
        (world.loading interpreter.root path) outcome outcome' := by
  have stays := Renaming.skipping_of_lt present
  have follows := Renaming.follows_loading ordinary interpreter.root path
  have each := isOrdinary_of_readProgram accepted
  rcases (interpreter.textEnds_iff accepted).1 ends with
    ⟨failure, after, fails, rfl⟩ | ⟨values, after, passed, rfl⟩
  · obtain ⟨after', fails', same⟩ := follows.eachEnds_failed stays present rfl each fails
    exact ⟨_, (can.fileEnds_iff accepted).2 (.inl ⟨failure, after', fails', rfl⟩), same⟩
  · obtain ⟨_, passed', alike⟩ := (follows.eachEnds stays present each).1 _ passed
    cases alike with
    | @finished _ values' _ after' reaches _ =>
      exact ⟨_, (can.fileEnds_iff accepted).2 (.inr ⟨values', after', passed', rfl⟩),
        .finished passed passed' (reaches.sameEffects stays rfl)⟩

/-- If the file ends, so does the text. -/
theorem exists_textEnds {outcome' : Outcome Value}
    (ends' : interpreter.FileEnds files path world outcome') :
    ∃ outcome, interpreter.TextEnds files text world outcome := by
  have follows := Renaming.follows_loading ordinary interpreter.root path
  obtain ⟨_, forms_end'⟩ : ∃ outcome, EachEnds files interpreter.root forms
      (world.loading interpreter.root path) outcome := by
    rcases (can.fileEnds_iff accepted).1 ends' with ⟨_, _, fails, _⟩ | ⟨_, _, passed, _⟩
    · exact ⟨_, fails⟩
    · exact ⟨_, passed⟩
  obtain ⟨outcome, forms_end⟩ := (follows.eachEnds (Renaming.skipping_of_lt present) present
    (isOrdinary_of_readProgram accepted)).2 _ forms_end'
  cases outcome with
  | finished values after =>
    exact ⟨_, (interpreter.textEnds_iff accepted).2 (.inr ⟨values, after, forms_end, rfl⟩)⟩
  | failed failure after =>
    exact ⟨_, (interpreter.textEnds_iff accepted).2 (.inl ⟨failure, after, forms_end, rfl⟩)⟩
  | outOfFuel => cases forms_end

end CanLoad

/-- **Loading a file agrees with evaluating its text, if the text can be read, in every session
of an interpreter with the packaged prelude in which the names that loading looks up are bound
as in its new root.**

With unlimited room one ends just when the other does, whatever the forms of the text define:
after the last form, when loading gives `nil`, or both at the same form and with the same
failure.  Each time the same has been written, and all frames, with the root among them, bind
the same names in the same way, where frames made on the way have the next name each in the
run that loads the file, for there the call of `load-file` has made the first. -/
theorem load_readable_file {maker : Host} {settings : Settings} {interpreter : Interpreter}
    {before start world : World} {files : FileTree} {path text : String} {forms : List Value}
    (packaged : Prelude.isPackaged settings = true) (ordinary : before.IsOrdinary)
    (created : Interpreter.create maker settings before = .finished interpreter start)
    (session : interpreter.Session start world)
    (original : ∀ name ∈ loadingNames, (world.heap.bindings interpreter.root).find? name =
      (start.heap.bindings interpreter.root).find? name)
    (readable : Builtin.fileText files [.string path] = .ok (.string text))
    (accepted : readProgram .unlimited text = .ok forms) :
    (∀ outcome, interpreter.TextEnds files text world outcome →
      ∃ outcome', interpreter.FileEnds files path world outcome' ∧
        LoadsAlike files interpreter.root forms (.skipping world.heap.size) world
          (world.loading interpreter.root path) outcome outcome') ∧
    ∀ outcome', interpreter.FileEnds files path world outcome' →
      ∃ outcome, interpreter.TextEnds files text world outcome ∧
        LoadsAlike files interpreter.root forms (.skipping world.heap.size) world
          (world.loading interpreter.root path) outcome outcome' := by
  have can : CanLoad files interpreter.root world path text :=
    Interpreter.canLoad_of_original packaged created original readable
  obtain ⟨started, there⟩ := Interpreter.isOrdinary_of_create packaged ordinary created
  obtain ⟨isOrdinary, present⟩ := session.isOrdinary started there
  refine ⟨fun outcome => can.fileEnds_of_textEnds accepted isOrdinary present, ?_⟩
  intro outcome' ends'
  obtain ⟨outcome, ends⟩ := can.exists_textEnds accepted isOrdinary present ends'
  obtain ⟨_, ends'', alike⟩ := can.fileEnds_of_textEnds accepted isOrdinary present ends
  obtain rfl := ends''.unique (interpreter.stable_load files path) ends'
  exact ⟨outcome, ends, alike⟩

/-- A definition, and one that lacks its value. -/
def lackingText : String :=
  "(def! a nil) (def! b)"

theorem readProgram_lackingText : readProgram .unlimited lackingText =
    .ok [.list [.symbol "def!", .symbol "a", .nil], .list [.symbol "def!", .symbol "b"]] := by
  have tokens : tokenize lackingText =
      ["(", "def!", "a", "nil", ")", "(", "def!", "b", ")"] := by cbv
  have first : readNested .unlimited ["(", "def!", "a", "nil", ")", "(", "def!", "b", ")"] =
      ⟨.ok (.list [.symbol "def!", .symbol "a", .nil]), ["(", "def!", "b", ")"]⟩ := rfl
  have second : readNested .unlimited ["(", "def!", "b", ")"] =
      ⟨.ok (.list [.symbol "def!", .symbol "b"]), []⟩ := rfl
  rw [readProgram, readSource, tokens, readAll, readAllOnto_of_ok first,
    readAllOnto_of_ok second, readAllOnto_nil]
  rfl

/-- A file of which the second form fails is loaded up to it, as its text is evaluated. -/
theorem load_lacking_definition :
    ∃ start, Interpreter.create (hostWith lackingText) ⟨none, none⟩ World.initial =
        .finished ⟨0⟩ start ∧
      ∃ after, Interpreter.FileEnds ⟨0⟩ (hostWith lackingText).files "f.mal" start
          (.failed (.error .definitionArity) after) ∧
        (after.heap.bindings 0).find? "a" = some .nil := by
  have packaged : Prelude.isPackaged ⟨none, none⟩ = true := rfl
  obtain ⟨start, created⟩ : ∃ start, Interpreter.create (hostWith lackingText) ⟨none, none⟩
      World.initial = .finished ⟨0⟩ start :=
    Interpreter.exists_create packaged (hostWith lackingText).files 4 World.initial
  have readable : Builtin.fileText (hostWith lackingText).files [.string "f.mal"] =
      .ok (.string lackingText) := by cbv
  obtain ⟨_, present⟩ :=
    Interpreter.isOrdinary_of_create packaged World.isOrdinary_initial created
  let defined : World := { start with heap := start.heap.define 0 "a" .nil }
  have first : EvaluationEnds (hostWith lackingText).files
      (.list [.symbol "def!", .symbol "a", .nil]) 0 start (.finished .nil defined) :=
    ⟨by simp, 2, rfl⟩
  have second : EvaluationEnds (hostWith lackingText).files
      (.list [.symbol "def!", .symbol "b"]) 0 defined (.failed (.error .definitionArity) defined) :=
    ⟨by simp, 1, rfl⟩
  have ends : Interpreter.TextEnds ⟨0⟩ (hostWith lackingText).files lackingText start
      (.failed (.error .definitionArity) defined) :=
    (Interpreter.textEnds_iff readProgram_lackingText ⟨0⟩).2
      (.inl ⟨_, _, .later_failed first (.first_failed second), rfl⟩)
  obtain ⟨_, loaded, alike⟩ := (load_readable_file packaged World.isOrdinary_initial created .start
    (fun _ _ => rfl) readable readProgram_lackingText).1 _ ends
  rcases alike with _ | ⟨_, _, _, _, _, _, same⟩
  refine ⟨start, created, _, loaded, ?_⟩
  rw [same.bindings, Bindings.find?_rename, Heap.find?_bindings_define _ present, if_pos rfl]
  rfl

end Lisp
