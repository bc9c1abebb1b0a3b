import Lisp.Proofs.Definitions
import Lisp.Proofs.Leaves
import Lisp.Proofs.Sessions

/-!
# One closure for each identity

A closure is found equal to another by its identity, so no two closures may have one identity.
A world counts the closures made so far and gives each new one the count, but it does not
remember them: a closure may be dropped, and its parameters and body with it.

A ledger remembers.  It has an entry for each closure that was made, in order, and only ever
grows at its end (`Ledger`).  It knows a value if each closure in it, and in the body of one,
is the one that was entered under its identity (`Ledger.Knows`).  That everything at hand is
known is an invariant of runs, in which a new closure makes a new entry (`recorded`).

So of all values that are gathered in the course of a session closures of one identity are one
closure (`Interpreter.Gathers.exists_ledger`).
-/

set_option autoImplicit false

namespace Lisp

/-! ## Ledgers -/

/-- What a closure is made of, apart from its identity. -/
structure ClosureParts where
  parameters : List String
  body : Value
  frame : FrameId

/-- The closures that were made, in order: the identity of each is its place. -/
structure Ledger where
  closures : List ClosureParts

/-- A later ledger has more entries at its end. -/
instance : Preorder Ledger where
  le earlier later := earlier.closures <+: later.closures
  le_refl _ := List.prefix_rfl
  le_trans _ _ _ := List.IsPrefix.trans

namespace Ledger

/-- Whether all closures in a value, and in the bodies of closures, are those that the ledger
has under their identities. -/
inductive Knows (ledger : Ledger) : Value → Prop where
  | plain {value : Value} : value.IsPlain → Knows ledger value
  | native (operation : Builtin) (root : FrameId) : Knows ledger (.native operation root)
  | list {items : List Value} : (∀ item ∈ items, Knows ledger item) → Knows ledger (.list items)
  | closure {identity : Nat} {parameters : List String} {body : Value} {frame : FrameId} :
      ledger.closures[identity]? = some ⟨parameters, body, frame⟩ → Knows ledger body →
        Knows ledger (.closure identity parameters body frame)

/-- A later ledger has the same entries under the identities that were given before. -/
theorem getElem?_of_le {ledger later : Ledger} (more : ledger ≤ later) {identity : Nat}
    {parts : ClosureParts} (entered : ledger.closures[identity]? = some parts) :
    later.closures[identity]? = some parts := by
  obtain ⟨rest, joined⟩ : ledger.closures <+: later.closures := more
  have given : identity < ledger.closures.length := (List.getElem?_eq_some_iff.1 entered).1
  rw [← joined, List.getElem?_append_left given, entered]

theorem Knows.mono {ledger later : Ledger} (more : ledger ≤ later) {value : Value}
    (knows : ledger.Knows value) : later.Knows value := by
  induction knows with
  | plain isPlain => exact .plain isPlain
  | native operation root => exact .native operation root
  | list _ ih => exact .list ih
  | closure entered _ ih => exact .closure (getElem?_of_le more entered) ih

theorem knows_list_iff {ledger : Ledger} {items : List Value} :
    ledger.Knows (.list items) ↔ ∀ item ∈ items, ledger.Knows item := by
  constructor
  · rintro (isPlain | _ | each)
    · exact isPlain.elim
    · exact each
  · exact .list

theorem knows_closure_iff {ledger : Ledger} {identity : Nat} {parameters : List String}
    {body : Value} {frame : FrameId} :
    ledger.Knows (.closure identity parameters body frame) ↔
      ledger.closures[identity]? = some ⟨parameters, body, frame⟩ ∧ ledger.Knows body := by
  constructor
  · rintro (isPlain | _ | _ | ⟨entered, known⟩)
    · exact isPlain.elim
    · exact ⟨entered, known⟩
  · exact fun ⟨entered, known⟩ => .closure entered known

/-- The leaves of a value that is known are known. -/
theorem Knows.of_mem_leaves {ledger : Ledger} {value leaf : Value} (knows : ledger.Knows value)
    (member : leaf ∈ value.leaves) : ledger.Knows leaf := by
  induction value using Value.induction with
  | leaf value isLeaf =>
    rw [Value.leaves_of_isLeaf isLeaf, List.mem_singleton] at member
    exact member ▸ knows
  | list items ih =>
    obtain ⟨item, inside, member⟩ := Value.mem_leaves_list.1 member
    exact ih item inside (knows_list_iff.1 knows item inside) member

end Ledger

/-- Whether a ledger has an entry for each closure that was made, and knows all values that
are bound. -/
structure Ledger.Records (ledger : Ledger) (world : World) : Prop where
  length_eq : ledger.closures.length = world.closures
  each : world.heap.Each ledger.Knows

/-! ## The invariant -/

/-- All values at hand are known to a ledger, to which each new closure is added. -/
def recorded : Invariant Ledger where
  world := Ledger.Records
  value := Ledger.Knows
  frame := Anything
  value_mono more known := known.mono more
  plain _ _ := .plain
  list_iff _ _ := Ledger.knows_list_iff
  body known := (Ledger.knows_closure_iff.1 known).2
  root _ := trivial
  lookup records found := records.each.lookup? found
  define _ records _ known := ⟨records.length_eq, records.each.define known⟩
  newFrame _ records := ⟨trivial, records.length_eq, records.each.push⟩
  newClosure := by
    intro ledger world body parameters place records known
    let later : Ledger := ⟨ledger.closures ++ [⟨parameters, body, place⟩]⟩
    have more : ledger ≤ later := List.prefix_append _ _
    have entered : later.closures[world.closures]? = some ⟨parameters, body, place⟩ := by
      rw [← records.length_eq, List.getElem?_concat_length]
    refine ⟨later, more, .closure entered (known.mono more), ?_, ?_⟩
    · rw [List.length_append, records.length_eq]
      rfl
    · exact fun frame binding member => (records.each frame binding member).mono more
  write _ records := ⟨records.length_eq, records.each⟩

theorem Ledger.records_initial : Records ⟨[]⟩ World.initial :=
  ⟨rfl, Heap.each_empty _⟩

namespace Interpreter

/-- Making an interpreter adds to a ledger. -/
theorem exists_records_of_create {host : Host} {settings : Settings} {interpreter : Interpreter}
    {before start : World} {ledger : Ledger} (records : ledger.Records before)
    (created : create host settings before = .finished interpreter start) :
    ∃ later : Ledger, later.Records start := by
  obtain ⟨root, _, built⟩ := Action.finished_of_bind_pure created
  have natives : ∀ operation, recorded.value ledger (.native operation before.heap.size) :=
    fun operation => .native operation _
  obtain ⟨_, later, _, records⟩ := Invariant.world_of_newRoot host settings natives records built
  exact ⟨later, records⟩

/-! ## Sessions -/

/-- The worlds that sessions of an interpreter lead to, each with values gathered on the way:
some that steps gave, and some that frames bound at the time. -/
inductive Gathers (interpreter : Interpreter) (start : World) : World → List Value → Prop where
  | start : Gathers interpreter start start []
  | step {before after : World} {values : List Value} :
      Gathers interpreter start before values → interpreter.SessionStep before after →
        Gathers interpreter start after values
  | evaluated {before after : World} {values : List Value} {value : Value} (host : Host)
      (source : String) :
      Gathers interpreter start before values →
        interpreter.evaluate host source before = .finished value after →
          Gathers interpreter start after (value :: values)
  | loaded {before after : World} {values : List Value} {value : Value} (host : Host)
      (path : String) :
      Gathers interpreter start before values →
        interpreter.load host path before = .finished value after →
          Gathers interpreter start after (value :: values)
  | bound {world : World} {values : List Value} {frame : FrameId} {binding : String × Value} :
      Gathers interpreter start world values → binding ∈ world.heap.bindings frame →
        Gathers interpreter start world (binding.2 :: values)

/-- What an action gives is added to the values that a ledger knows, and the ledger grows. -/
theorem exists_ledger_of_finished {room : Room} {before after : World} {values : List Value}
    {value : Value} {action : Action Value} {ledger : Ledger} (records : ledger.Records before)
    (knows : ∀ known ∈ values, ledger.Knows known)
    (keeps : Action.Keeps recorded.world room recorded.value ledger action)
    (finished : action before = .finished value after) :
    ∃ later : Ledger, later.Records after ∧ ∀ known ∈ value :: values, later.Knows known := by
  obtain ⟨later, more, given, records⟩ := keeps.of_finished records finished
  exact ⟨later, records,
    List.forall_mem_cons.2 ⟨given, fun known member => (knows known member).mono more⟩⟩

/-- **All values gathered in a session are known to one ledger.** -/
theorem Gathers.exists_ledger {interpreter : Interpreter} {start world : World}
    {values : List Value} {ledger : Ledger} (records : ledger.Records start)
    (gathers : interpreter.Gathers start world values) :
    ∃ later : Ledger, later.Records world ∧ ∀ value ∈ values, later.Knows value := by
  have inside : recorded.frame interpreter.root := trivial
  induction gathers with
  | start => exact ⟨ledger, records, by simp⟩
  | step _ step ih =>
    obtain ⟨between, records, knows⟩ := ih
    obtain ⟨later, more, records⟩ := Invariant.keeps_sessionStep inside step records
    exact ⟨later, records, fun value member => (knows value member).mono more⟩
  | evaluated host source _ finished ih =>
    obtain ⟨between, records, knows⟩ := ih
    exact exists_ledger_of_finished records knows
      (Invariant.keeps_evaluateSource host inside source) finished
  | loaded host path _ finished ih =>
    obtain ⟨between, records, knows⟩ := ih
    exact exists_ledger_of_finished records knows (Invariant.keeps_load inside host path) finished
  | bound _ member ih =>
    obtain ⟨later, records, knows⟩ := ih
    exact ⟨later, records, List.forall_mem_cons.2 ⟨records.each _ _ member, knows⟩⟩

end Interpreter

end Lisp
