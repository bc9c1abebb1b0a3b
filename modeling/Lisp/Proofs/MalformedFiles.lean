import Lisp.Proofs.Lines
import Lisp.Proofs.LoadFile

/-!
# Loading files that cannot be read

A source text that cannot be read is rejected as a whole.  A file is not always: what
`load-file` reads is one form around the text, and a parenthesis that closes nothing in
the text closes that form.  Then the forms before the parenthesis are evaluated and what
stands behind it is ignored (`load_unreadable_file`).  Files that cannot be read for any
other reason are rejected as a whole, as source texts are.

Inside the call of `load-file` there is less room, so a text that nests nearly too deep
may turn out to nest too deep; then nothing is evaluated either.

All this needs the room that any settings leave (`Host.isRoomy_of_ofSettings`), so it is
true of every host that settings make (`Interpreter.load_rejects_with_settings`).
-/

set_option autoImplicit false

namespace Lisp

/-! ## Hosts with room -/

/-- Whether a host has the room of the stack limit that is in force before any setting is
applied, which settings only ever raise. -/
def Host.IsRoomy (host : Host) : Prop :=
  (Room.frames startLimit.toNat).AtMost host.room

/-- A host that settings give has the limit that they give. -/
theorem Host.eq_of_ofSettings {settings : Settings} {before : Int} {files : FileTree}
    {fuel : Nat} {host : Host} (made : ofSettings settings before files fuel = .ok host) :
    ∃ limit, settings.limitFrom before = .ok limit ∧ host = ⟨files, fuel, .frames limit.toNat⟩ := by
  unfold ofSettings at made
  cases given : settings.limitFrom before with
  | error fault =>
    rw [given] at made
    cases made
  | ok limit =>
    rw [given] at made
    cases made
    exact ⟨limit, rfl, rfl⟩

/-- Settings leave a host its room. -/
theorem Host.isRoomy_of_ofSettings {settings : Settings} {before : Int} {files : FileTree}
    {fuel : Nat} {host : Host} (made : ofSettings settings before files fuel = .ok host)
    (started : startLimit ≤ before) : host.IsRoomy := by
  obtain ⟨limit, given, rfl⟩ := eq_of_ofSettings made
  have raised : startLimit ≤ limit := by
    unfold Settings.limitFrom at given
    cases asked : settings.limit with
    | error fault =>
      rw [asked] at given
      cases given
    | ok asked' =>
      rw [asked] at given
      simp only [bind, Except.bind, pure, Except.pure, Settings.checked] at given
      grind
  exact Int.toNat_le_toNat raised

/-! ## Loading -/

/-- Whether a text is too deep for the reader once it is wrapped and `load-file` reads it:
inside that call there is less room than outside. -/
def Host.NestsTooDeep (host : Host) (text : String) : Prop :=
  ∃ inner, host.room.enter? Room.evaluation = some inner ∧
    readText inner (wrapped text) = .error (.error .readingTooDeep)

/-- **Loading a file that cannot be read fails, or evaluates the forms before a parenthesis
that closes nothing.** -/
theorem CanLoad.load_of_unreadable {host : Host} {interpreter : Interpreter} {world : World}
    {path text : String} {error : Error}
    (can : CanLoad host.files interpreter.root world path text) (roomy : host.IsRoomy)
    (enough : 6 ≤ host.fuel) (unreadable : readProgram host.room text = .error (.error error)) :
    (host.NestsTooDeep text → interpreter.load host path world =
      .failed (.error .readingTooDeep) (world.loading interpreter.root path)) ∧
    (¬ host.NestsTooDeep text → error ≠ .unexpectedClose →
      ∃ error', error'.category.isA .malformed = true ∧ interpreter.load host path world =
        .failed (.error error') (world.loading interpreter.root path)) ∧
    (¬ host.NestsTooDeep text → error = .unexpectedClose →
      ∃ within, host.room.enter? Room.reentry = some within ∧
        interpreter.load host path world =
          evaluate host.files (host.fuel - 2) within
            (.list (.symbol "do" :: (readSource host.room text).forms)) interpreter.root
            (world.loading interpreter.root path)) := by
  obtain ⟨fuel, fuel_eq⟩ : ∃ fuel, host.fuel = fuel + 6 := ⟨host.fuel - 6, by omega⟩
  have narrow : (Room.frames 12).AtMost (.frames Host.startLimit.toNat) := by
    simp [Room.AtMost, Host.startLimit]
  -- The wrapped text is read in `inner`, and what was read is evaluated in `within`.
  obtain ⟨inner, within, entered, reentered, loads⟩ :=
    @CanLoad.evaluate_load _ fuel _ _ _ _ _ can (narrow.trans roomy)
  have called : interpreter.load host path world =
      evaluate host.files (fuel + 6) host.room (.list [.symbol "load-file", .string path])
        interpreter.root world := by
    rw [Interpreter.load, Host.evaluate, fuel_eq]
  rw [← called] at loads
  have nests : host.NestsTooDeep text ↔
      readText inner (wrapped text) = .error (.error .readingTooDeep) := by
    simp [Host.NestsTooDeep, entered]
  have reads := @readText_wrapped_of_unreadable _ _ (Room.atMost_of_enter? entered) _ _ unreadable
  refine ⟨?_, ?_, ?_⟩
  · intro deep
    rw [nests.1 deep] at loads
    exact loads
  · intro fits others
    obtain ⟨error', malformed, first⟩ := (reads (mt nests.2 fits)).1 others
    rw [first] at loads
    exact ⟨error', malformed, loads⟩
  · intro fits closes
    rw [(reads (mt nests.2 fits)).2 closes] at loads
    refine ⟨within, reentered, ?_⟩
    rw [fuel_eq]
    exact loads

/-- With unlimited room no text is too deep. -/
theorem Host.not_nestsTooDeep {host : Host} (unlimited : host.room = .unlimited) (text : String) :
    ¬ host.NestsTooDeep text := by
  rintro ⟨inner, entered, deep⟩
  rw [unlimited] at entered
  cases entered
  obtain ⟨_, same, malformed | ⟨_, limited⟩⟩ := readText_fails deep
  · cases same
    cases malformed
  · exact limited rfl

/-- **A host made by settings has the room to reject a file that cannot be read: with a syntax
error or for its depth, and with no form evaluated, unless reading stops at a parenthesis that
closes nothing.** -/
theorem Interpreter.load_rejects_with_settings {settings : Settings} {limit : Int}
    {files : FileTree} {fuel : Nat} {host : Host} {interpreter : Interpreter}
    {before start world : World} {path text : String} {error : Error}
    (made : Host.ofSettings settings limit files fuel = .ok host)
    (started : Host.startLimit ≤ limit) (enough : 6 ≤ fuel)
    (packaged : Prelude.isPackaged settings = true)
    (created : create host settings before = .finished interpreter start)
    (original : ∀ name ∈ loadingNames, (world.heap.bindings interpreter.root).find? name =
      (start.heap.bindings interpreter.root).find? name)
    (readable : Builtin.fileText files [.string path] = .ok (.string text))
    (unreadable : readProgram host.room text = .error (.error error))
    (others : error ≠ .unexpectedClose) :
    ∃ error', (error'.category.isA .malformed = true ∨ error' = .readingTooDeep) ∧
      interpreter.load host path world =
        .failed (.error error') (world.loading interpreter.root path) := by
  have roomy : host.IsRoomy := Host.isRoomy_of_ofSettings made started
  obtain ⟨rfl, rfl⟩ : host.files = files ∧ host.fuel = fuel := by
    obtain ⟨_, _, rfl⟩ := Host.eq_of_ofSettings made
    exact ⟨rfl, rfl⟩
  have can := canLoad_of_original packaged created original readable
  obtain ⟨deep, malformed, _⟩ := can.load_of_unreadable roomy enough unreadable
  by_cases nests : host.NestsTooDeep text
  · exact ⟨_, .inr rfl, deep nests⟩
  · obtain ⟨error', category, loads⟩ := malformed nests others
    exact ⟨error', .inl category, loads⟩

/-- **How loading a file ends whose text cannot be read, in any world in which the names
that loading looks up are bound as in a new interpreter's root.**

As source text it is rejected.  As a file it is rejected as well, by a syntax error from a
world that has a frame more and no other change, so that no form is evaluated; but if
reading stops at a parenthesis that closes nothing, loading is evaluating the forms before
it in the root.  Without enough room for the reader it fails for want of that. -/
theorem load_unreadable_file {host maker : Host} {settings : Settings} {interpreter : Interpreter}
    {before start world : World} {path text : String} {error : Error}
    (packaged : Prelude.isPackaged settings = true)
    (created : Interpreter.create maker settings before = .finished interpreter start)
    (original : ∀ name ∈ loadingNames, (world.heap.bindings interpreter.root).find? name =
      (start.heap.bindings interpreter.root).find? name)
    (roomy : host.IsRoomy) (enough : 6 ≤ host.fuel)
    (readable : Builtin.fileText host.files [.string path] = .ok (.string text))
    (unreadable : readProgram host.room text = .error (.error error)) :
    interpreter.evaluate host text world = .failed (.error error) world ∧
    Preserves (fun _ => False) world.heap (world.loading interpreter.root path).heap ∧
    (world.loading interpreter.root path).output = world.output ∧
    (host.room = .unlimited → ¬ host.NestsTooDeep text) ∧
    (host.NestsTooDeep text → interpreter.load host path world =
      .failed (.error .readingTooDeep) (world.loading interpreter.root path)) ∧
    (¬ host.NestsTooDeep text → error ≠ .unexpectedClose →
      ∃ error', error'.category.isA .malformed = true ∧ interpreter.load host path world =
        .failed (.error error') (world.loading interpreter.root path)) ∧
    (¬ host.NestsTooDeep text → error = .unexpectedClose →
      ∃ within, host.room.enter? Room.reentry = some within ∧
        interpreter.load host path world =
          evaluate host.files (host.fuel - 2) within
            (.list (.symbol "do" :: (readSource host.room text).forms)) interpreter.root
            (world.loading interpreter.root path)) := by
  have can : CanLoad host.files interpreter.root world path text :=
    Interpreter.canLoad_of_original packaged created original readable
  obtain ⟨deep, malformed, stray⟩ := can.load_of_unreadable roomy enough unreadable
  exact ⟨interpreter.evaluate_of_unreadable unreadable world, world.preserves_calling _ _ _, rfl,
    fun unlimited => Host.not_nestsTooDeep unlimited text, deep, malformed, stray⟩

/-- A file that leaves a list open is rejected. -/
theorem load_unclosed_file :
    ∃ start, Interpreter.create (hostWith "(def! a 1") ⟨none, none⟩ World.initial =
        .finished ⟨0⟩ start ∧
      ∃ error, error.category.isA .malformed = true ∧
        Interpreter.load ⟨0⟩ (hostWith "(def! a 1") "f.mal" start =
          .failed (.error error) (start.loading 0 "f.mal") := by
  have packaged : Prelude.isPackaged ⟨none, none⟩ = true := rfl
  obtain ⟨start, created⟩ :=
    Interpreter.exists_create packaged (hostWith "(def! a 1").files 4 World.initial
  have readable : Builtin.fileText (hostWith "(def! a 1").files [.string "f.mal"] =
      .ok (.string "(def! a 1") := by cbv
  have unreadable : readProgram .unlimited "(def! a 1" = .error (.error .endInList) := by cbv
  obtain ⟨_, _, _, fits, _, rejected, _⟩ := @load_unreadable_file (hostWith "(def! a 1") _ _ _ _
    start start _ _ _ packaged created (fun _ _ => rfl) trivial (Nat.le_refl 6) readable unreadable
  exact ⟨start, created, rejected (fits rfl) (by simp)⟩

/-- A definition with a parenthesis too many behind it, and another definition. -/
def strayText : String :=
  "(def! a 1)) (def! b 2)"

theorem readProgram_strayText :
    readProgram .unlimited strayText = .error (.error .unexpectedClose) := by
  have tokens : tokenize strayText =
      ["(", "def!", "a", "1", ")", ")", "(", "def!", "b", "2", ")"] := by cbv
  obtain ⟨form, first, second⟩ : ∃ form,
      readNested .unlimited ["(", "def!", "a", "1", ")", ")", "(", "def!", "b", "2", ")"] =
        ⟨.ok form, [")", "(", "def!", "b", "2", ")"]⟩ ∧
      readNested .unlimited [")", "(", "def!", "b", "2", ")"] =
        ⟨.error (.error .unexpectedClose), [")", "(", "def!", "b", "2", ")"]⟩ := ⟨_, rfl, rfl⟩
  rw [readProgram, readSource, tokens, readAll, readAllOnto_of_ok first,
    readAllOnto_of_error (by simp) second]

theorem readText_wrapped_strayText :
    ∃ n, readText .unlimited (wrapped strayText) =
      .ok (.list [.symbol "do", .list [.symbol "def!", .symbol "a", .number n]]) := by
  have tokens : tokenize (wrapped strayText) =
      ["(", "do", "(", "def!", "a", "1", ")", ")", "(", "def!", "b", "2", ")", "nil", ")"] := by cbv
  rw [readText_eq _ (by simp [tokens]), tokens]
  exact ⟨_, rfl⟩

/-- A file with a parenthesis too many is loaded up to it, though it is no source text. -/
theorem load_stray_parenthesis :
    ∃ start, Interpreter.create (hostWith strayText) ⟨none, none⟩ World.initial =
        .finished ⟨0⟩ start ∧
      Builtin.fileText (hostWith strayText).files [.string "f.mal"] = .ok (.string strayText) ∧
      Interpreter.evaluate ⟨0⟩ (hostWith strayText) strayText start =
        .failed (.error .unexpectedClose) start ∧
      (start.heap.bindings 0).find? "a" = none ∧
      ∃ value after, Interpreter.load ⟨0⟩ (hostWith strayText) "f.mal" start =
          .finished value after ∧
        (after.heap.bindings 0).find? "a" = some value := by
  have packaged : Prelude.isPackaged ⟨none, none⟩ = true := rfl
  obtain ⟨start, created⟩ :=
    Interpreter.exists_create packaged (hostWith strayText).files 4 World.initial
  obtain ⟨identity, bound⟩ : ∃ identity, start.heap.bindings 0 =
      (Bindings.defineAll [] (Host.nativeBindings 0)).define "load-file"
        (.closure identity ["f"] loadFileBody 0) :=
    Interpreter.bindings_of_create packaged created
  have readable : Builtin.fileText (hostWith strayText).files [.string "f.mal"] =
      .ok (.string strayText) := by cbv
  have can : CanLoad (hostWith strayText).files 0 start "f.mal" strayText :=
    ⟨bound ▸ holdsLoading_new 0 identity, readable⟩
  obtain ⟨n, sequence⟩ := readText_wrapped_strayText
  have loads := @CanLoad.load_unlimited _ 0 _ _ _ _ can _ sequence
  have rejected := @Interpreter.evaluate_of_unreadable ⟨0⟩ (hostWith strayText) _ _
    readProgram_strayText start
  refine ⟨start, created, readable, rejected, ?_, .number n, _, loads, ?_⟩
  · rw [bound, Bindings.find?_define, if_neg (by decide),
      Bindings.find?_defineAll_of_not_mem (by decide)]
    rfl
  · have present : 0 < (start.loading 0 "f.mal").heap.size := by
      simp [World.loading]
    rw [Heap.find?_bindings_define _ present, if_pos rfl]

end Lisp
