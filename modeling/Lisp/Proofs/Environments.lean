import Lisp.Environment
import Lisp.Proofs.Chains
import Lisp.Proofs.Definitions
import Lisp.Proofs.Direct

/-!
# Environments and their history

A host makes environments, alone or inside others, and defines names in them.  What it can see
of them afterwards is settled by the history of what it did: an environment stands inside the
one that it was made a child of, and a name has the value of the latest definition on the
nearest environment that has one (`environments_answer_from_history`).  A name of any kind is
looked up as it is searched for (`lookup_as_search`).

Several definitions at once come as a mapping, in which no symbol stands twice; whatever pairs
are given do what the mapping does that they come to (`update_ofPairs`).  The definitions of an
operation are those it comes to before a name that is no symbol, where it fails; what was
defined before the failure stays defined.

A history is a list of operations with the latest first.  Nothing in the account of a history
mentions frames or bindings: the heap that a run leaves records the history (`Records`),
because every operation keeps the record (`Records.effect`).
-/

set_option autoImplicit false

namespace Lisp

namespace Environment

/-! ## Mappings -/

theorem map_fst_insertPair (name value : Value) (pairs : List (Value × Value)) :
    (insertPair name value pairs).map Prod.fst =
      if (pairs.map Prod.fst).any (sameSymbol · name) then pairs.map Prod.fst
      else pairs.map Prod.fst ++ [name] := by
  induction pairs with
  | nil => rfl
  | cons pair rest ih =>
    obtain ⟨placed, old⟩ := pair
    rw [insertPair, List.map_cons, List.any_cons]
    cases sameSymbol placed name with
    | true => rfl
    | false =>
      rw [Bool.false_or, if_neg Bool.false_ne_true, List.map_cons, ih]
      split <;> rfl

/-- Pairs of which no two have the same symbol, as a mapping holds them. -/
def Distinct (pairs : List (Value × Value)) : Prop :=
  (pairs.map Prod.fst).Pairwise (sameSymbol · · = false)

theorem distinct_insertPair {pairs : List (Value × Value)} (distinct : Distinct pairs)
    (name value : Value) : Distinct (insertPair name value pairs) := by
  rw [Distinct, map_fst_insertPair]
  split
  · exact distinct
  · next new =>
    refine List.pairwise_append.2 ⟨distinct, List.pairwise_singleton _ _, fun placed inside => ?_⟩
    rw [List.forall_mem_singleton]
    simpa using fun same => new (List.any_eq_true.2 ⟨placed, inside, same⟩)

theorem insertPair_of_new {name : Value} {pairs : List (Value × Value)}
    (new : ∀ placed ∈ pairs.map Prod.fst, sameSymbol placed name = false) (value : Value) :
    insertPair name value pairs = pairs ++ [(name, value)] := by
  induction pairs with
  | nil => rfl
  | cons pair rest ih =>
    obtain ⟨placed, old⟩ := pair
    obtain ⟨other, others⟩ := List.forall_mem_cons.1 new
    rw [insertPair, if_neg (other ▸ Bool.false_ne_true), ih others, List.cons_append]

/-- Merging pairs leaves those of a mapping as they are. -/
theorem merge_of_distinct {pairs : List (Value × Value)} (distinct : Distinct pairs) :
    merge pairs = pairs := by
  induction pairs using List.reverseRecOn with
  | nil => rfl
  | append_singleton earlier pair ih =>
    rw [Distinct, List.map_append, List.pairwise_append] at distinct
    obtain ⟨before, _, apart⟩ := distinct
    have new : ∀ placed ∈ earlier.map Prod.fst, sameSymbol placed pair.1 = false :=
      fun placed inside => apart placed inside pair.1 List.mem_cons_self
    have merged := ih before
    rw [merge] at merged
    rw [merge, List.foldl_append, merged]
    exact insertPair_of_new new pair.2

/-- A mapping of names to values. -/
structure Mapping where
  pairs : List (Value × Value)
  distinct : Distinct pairs

/-- The mapping that pairs come to, whichever they are. -/
def Mapping.ofPairs (pairs : List (Value × Value)) : Mapping where
  pairs := merge pairs
  distinct := by
    induction pairs using List.reverseRecOn with
    | nil => exact List.Pairwise.nil
    | append_singleton earlier pair ih =>
      rw [merge, List.foldl_append]
      exact distinct_insertPair ih pair.1 pair.2

/-- Updating with pairs is updating with the mapping that they come to. -/
theorem update_ofPairs (room : Room) (frame : FrameId) (pairs : List (Value × Value)) :
    update room frame (Mapping.ofPairs pairs).pairs = update room frame pairs := by
  rw [update, merge_of_distinct (Mapping.ofPairs pairs).distinct]
  rfl

/-! ## Operations -/

/-- The names and values of pairs, up to the first name that is no symbol. -/
def leading : List (Value × Value) → List (String × Value)
  | (.symbol name, value) :: rest => (name, value) :: leading rest
  | _ => []

/-- What a host does with environments. -/
inductive Operation where
  | new
  | child (outer : FrameId)
  | define (place : FrameId) (name value : Value)
  | update (place : FrameId) (mapping : Mapping)

namespace Operation

/-- The environment that an operation is done on. -/
def place? : Operation → Option FrameId
  | .new => none
  | .child place | .define place _ _ | .update place _ => some place

/-- The names that an operation is to define. -/
def names : Operation → List Value
  | .new | .child _ => []
  | .define _ name _ => [name]
  | .update _ mapping => mapping.pairs.map Prod.fst

/-- What an operation defines. -/
def defined : Operation → List (String × Value)
  | .new | .child _ => []
  | .define _ name value => leading [(name, value)]
  | .update _ mapping => leading mapping.pairs

/-- Does an operation. -/
def perform (room : Room) : Operation → Action Unit
  | .new => do let _ ← Action.newFrame none
  | .child outer => do let _ ← Action.newFrame (some outer)
  | .define place name value => Environment.define room place name value
  | .update place mapping => Environment.update room place mapping.pairs

end Operation

/-! ## Histories -/

/-- How many environments there are after a history. -/
def created : List Operation → Nat
  | [] => 0
  | .new :: earlier | .child _ :: earlier => created earlier + 1
  | .define .. :: earlier | .update .. :: earlier => created earlier

/-- The environment that another was made a child of. -/
def around? : List Operation → FrameId → Option FrameId
  | [], _ => none
  | .child outer :: earlier, place =>
    if place = created earlier then some outer else around? earlier place
  | .new :: earlier, place | .define .. :: earlier, place | .update .. :: earlier, place =>
    around? earlier place

/-- Everything that was defined on an environment, the latest last. -/
def definitions : List Operation → FrameId → List (String × Value)
  | [], _ => []
  | operation :: earlier, place =>
    if operation.place? = some place then definitions earlier place ++ operation.defined
    else definitions earlier place

/-- The value of the latest definition of a name on an environment. -/
def latest? (history : List Operation) (place : FrameId) (name : String) : Option Value :=
  (definitions history place).reverse.lookup name

/-- Whether each operation of a history is done on an environment that was there. -/
inductive IsHistory : List Operation → Prop where
  | start : IsHistory []
  | done {earlier : List Operation} {operation : Operation} (before : IsHistory earlier)
      (there : ∀ place ∈ operation.place?, place < created earlier) :
      IsHistory (operation :: earlier)

/-- The world that the operations of a history leave. -/
def run (room : Room) : List Operation → World
  | [] => .initial
  | operation :: earlier =>
    ((operation.perform room (run room earlier)).world?).getD (run room earlier)

/-! ## What an operation does -/

variable {room : Room} {place : FrameId} {world : World}

theorem leading_of_not_symbol {name : Value} (notSymbol : ∀ symbol, name ≠ .symbol symbol)
    (value : Value) (rest : List (Value × Value)) : leading ((name, value) :: rest) = [] := by
  cases name with
  | symbol symbol => exact absurd rfl (notSymbol symbol)
  | _ => rfl

/-- A name that is no symbol is refused, and the world stays as it is. -/
theorem exists_failed_define {name : Value} (notSymbol : ∀ symbol, name ≠ .symbol symbol)
    (value : Value) : ∃ failure, define room place name value world = .failed failure world := by
  have refused : define room place name value = Action.throwShowing room name .notName := by
    cases name with
    | symbol symbol => exact absurd rfl (notSymbol symbol)
    | _ => rfl
  rw [refused, Action.throwShowing]
  cases name.shown room <;> exact ⟨_, rfl⟩

/-- Defining one name is defining the names of one pair. -/
theorem defineEach_singleton (room : Room) (place : FrameId) (name value : Value) :
    defineEach room place [(name, value)] = define room place name value :=
  bind_pure (define room place name value)

theorem world?_defineEach (pairs : List (Value × Value)) :
    (defineEach room place pairs world).world? =
      some { world with heap := world.heap.defineAll place (leading pairs) } := by
  induction pairs generalizing world with
  | nil => rfl
  | cons pair rest ih =>
    obtain ⟨name, value⟩ := pair
    rw [defineEach, Action.bind_apply]
    by_cases isSymbol : ∃ symbol, name = .symbol symbol
    · obtain ⟨symbol, rfl⟩ := isSymbol
      exact ih
    · have notSymbol := not_exists.1 isSymbol
      obtain ⟨failure, failed⟩ := @exists_failed_define room place world name notSymbol value
      rw [failed, leading_of_not_symbol notSymbol]
      rfl

/-- Pairs are defined without a failure when all their names are symbols. -/
theorem finishes_defineEach_iff {pairs : List (Value × Value)} :
    (∃ after, defineEach room place pairs world = .finished () after) ↔
      ∀ name ∈ pairs.map Prod.fst, ∃ symbol, name = .symbol symbol := by
  induction pairs generalizing world with
  | nil => exact ⟨fun _ _ => nofun, fun _ => ⟨world, rfl⟩⟩
  | cons pair rest ih =>
    obtain ⟨name, value⟩ := pair
    rw [List.map_cons, List.forall_mem_cons, defineEach, Action.bind_apply]
    by_cases isSymbol : ∃ symbol, name = .symbol symbol
    · rw [and_iff_right isSymbol]
      obtain ⟨symbol, rfl⟩ := isSymbol
      exact ih
    · obtain ⟨failure, failed⟩ :=
        @exists_failed_define room place world name (not_exists.1 isSymbol) value
      rw [failed]
      exact ⟨nofun, fun symbols => absurd symbols.1 isSymbol⟩

namespace Operation

/-- What an operation makes of a heap. -/
def effect : Operation → Heap → Heap
  | .new, heap => heap.push none
  | .child outer, heap => heap.push (some outer)
  | .define place name value, heap => heap.defineAll place (leading [(name, value)])
  | .update place mapping, heap => heap.defineAll place (leading mapping.pairs)

theorem world?_perform (operation : Operation) :
    (operation.perform room world).world? =
      some { world with heap := operation.effect world.heap } := by
  cases operation with
  | new => rfl
  | child outer => rfl
  | define place name value =>
    rw [perform, ← defineEach_singleton]
    exact world?_defineEach [(name, value)]
  | update place mapping =>
    rw [perform, Environment.update, merge_of_distinct mapping.distinct]
    exact world?_defineEach mapping.pairs

/-- An operation fails just when it is to define a name that is no symbol. -/
theorem finishes_iff (operation : Operation) :
    (∃ after, operation.perform room world = .finished () after) ↔
      ∀ name ∈ operation.names, ∃ symbol, name = .symbol symbol := by
  cases operation with
  | new => exact ⟨fun _ _ => nofun, fun _ => ⟨_, rfl⟩⟩
  | child outer => exact ⟨fun _ _ => nofun, fun _ => ⟨_, rfl⟩⟩
  | define place name value =>
    rw [perform, ← defineEach_singleton]
    exact finishes_defineEach_iff
  | update place mapping =>
    rw [perform, Environment.update, merge_of_distinct mapping.distinct]
    exact finishes_defineEach_iff

end Operation

/-! ## The record of a history -/

/-- Whether a heap is what a history tells of its environments. -/
structure Records (history : List Operation) (heap : Heap) : Prop where
  size : heap.size = created history
  outer? : ∀ place, heap.outer? place = around? history place
  bindings : ∀ place, heap.bindings place = Bindings.defineAll [] (definitions history place)

theorem records_initial : Records [] World.initial.heap where
  size := rfl
  outer? _ := rfl
  bindings _ := rfl

namespace Records

variable {earlier : List Operation} {heap : Heap} (records : Records earlier heap)
include records

theorem new : Records (.new :: earlier) (heap.push none) where
  size := by rw [Heap.size_push, records.size, created]
  outer? place := by
    rw [Heap.outer?_push, around?, ← records.outer?]
    split
    · next last => exact (Heap.outer?_of_absent last.ge).symm
    · rfl
  bindings place := by
    rw [Heap.bindings_push, records.bindings]
    rfl

theorem child {outer : FrameId} (there : outer < created earlier) :
    Records (.child outer :: earlier) (heap.push (some outer)) where
  size := by rw [Heap.size_push, records.size, created]
  outer? place := by
    rw [Heap.outer?_push, around?, ← records.outer?, records.size]
    simp [Option.filter, there]
  bindings place := by
    rw [Heap.bindings_push, records.bindings, definitions]
    split
    · rw [Operation.defined, List.append_nil]
    · rfl

theorem defineAll {operation : Operation} {place : FrameId} (there : place < created earlier)
    (on : operation.place? = some place) (count : created (operation :: earlier) = created earlier)
    (around : ∀ other, around? (operation :: earlier) other = around? earlier other) :
    Records (operation :: earlier) (heap.defineAll place operation.defined) where
  size := by rw [Heap.size_defineAll, records.size, count]
  outer? other := by rw [Heap.outer?_defineAll, records.outer?, around]
  bindings other := by
    rw [Heap.bindings_defineAll (records.size ▸ there), definitions, on]
    by_cases same : other = place
    · rw [same, if_pos rfl, if_pos rfl, Bindings.defineAll_append, records.bindings]
    · have apart : some place ≠ some other := fun both => same (Option.some.inj both).symm
      rw [if_neg same, if_neg apart, records.bindings]

/-- **An operation keeps the record.** -/
theorem effect {operation : Operation}
    (there : ∀ place ∈ operation.place?, place < created earlier) :
    Records (operation :: earlier) (operation.effect heap) := by
  cases operation with
  | new => exact records.new
  | child outer => exact records.child (there outer rfl)
  | define place name value => exact records.defineAll (there place rfl) rfl rfl fun _ => rfl
  | update place mapping => exact records.defineAll (there place rfl) rfl rfl fun _ => rfl

end Records

theorem run_cons (operation : Operation) (earlier : List Operation) :
    run room (operation :: earlier) =
      { run room earlier with heap := operation.effect (run room earlier).heap } := by
  rw [run, Operation.world?_perform, Option.getD_some]

/-- **The heap that a run leaves records its history.** -/
theorem records_run {history : List Operation} (possible : IsHistory history) :
    Records history (run room history).heap := by
  induction possible with
  | start => exact records_initial
  | done _ there ih =>
    rw [run_cons]
    exact ih.effect there

/-! ## What is seen of a history -/

theorem lookup_eq_finished_iff {name : String} {value : Value} :
    lookup room place (.symbol name) world = .finished value world ↔
      world.heap.lookup? place name = some value := by
  rw [lookup, Action.lookup]
  cases world.heap.lookup? place name <;> simp

theorem lookup_of_find?_eq_none {name : String}
    (nowhere : find? world.heap place (.symbol name) = none) :
    lookup room place (.symbol name) world = .failed (.error (.unbound name)) world := by
  have missing : world.heap.lookup? place name = none := by
    rw [Heap.lookup?, show world.heap.find? place name = none from nowhere]
    rfl
  rw [lookup, Action.lookup, missing]

/-- **A name of any kind is looked up as it is searched for**: it has a value just when the search
finds a frame, and the lookup meets the fault that the search does. -/
theorem lookup_as_search (name : Value) :
    ((∃ value, lookup room place name world = .finished value world) ↔
      ∃ owner, search world.heap place name = .ok (some owner)) ∧
    ∀ fault, search world.heap place name = .error fault →
      lookup room place name world = .failed (.fault fault) world := by
  cases name with
  | symbol symbol =>
    refine ⟨?_, by simp [search]⟩
    simp only [lookup_eq_finished_iff, search, Except.ok.injEq, ← Option.isSome_iff_exists]
    rw [world.heap.isSome_lookup? place symbol]
  | list items => simp [search, lookup, Action.fail]
  | _ =>
    refine ⟨?_, by simp [search]⟩
    simp only [lookup, search]
    generalize Value.plain room _ = text
    cases text <;> simp [Action.throw, Action.fail]

namespace Records

variable {history : List Operation} {heap : Heap} (records : Records history heap)
include records

theorem find?_bindings (place : FrameId) (name : String) :
    (heap.bindings place).find? name = latest? history place name := by
  rw [records.bindings, Bindings.find?_defineAll, latest?]
  exact Option.or_none

theorem find?_eq (place : FrameId) (name : String) :
    find? heap place (.symbol name) =
      (heap.chain place).find? fun owner => (latest? history owner name).isSome := by
  simp only [← records.find?_bindings]
  exact heap.find?_eq_find?_chain place name

theorem exists_latest? {owner : FrameId} {name : String}
    (found : find? heap place (.symbol name) = some owner) :
    ∃ value, latest? history owner name = some value ∧ heap.lookup? place name = some value := by
  have defined : (latest? history owner name).isSome = true := by
    rw [records.find?_eq] at found
    exact (List.find?_eq_some_iff_append.1 found).1
  obtain ⟨value, latest⟩ := Option.isSome_iff_exists.1 defined
  refine ⟨value, latest, ?_⟩
  rw [Heap.lookup?, show heap.find? place name = some owner from found, Option.bind_some,
    records.find?_bindings, latest]

theorem binds_eq (name : String) :
    heap.Binds name = fun other => latest? history other name ≠ none := by
  funext other
  rw [Heap.Binds, records.find?_bindings]

end Records

/-- **Environments answer from the history of what was done with them.**

An environment stands inside the one that it was made a child of, which is older, so that its
chain ends, at the root.  A symbol is found on the nearest environment of the chain that has a
definition of it; its value is that of the latest definition there, and it is unbound when
there is none.  A further definition is seen from the environments whose chains come to it
before they come to another that has a definition of the symbol, and changes nothing else.  The
names on an environment stand in the order of their first definitions.  And an operation fails
just when it comes to a name that is no symbol. -/
theorem environments_answer_from_history (room : Room) {history : List Operation}
    (possible : IsHistory history) :
    let world := run room history
    let heap := world.heap
    heap.size = created history ∧
    (∀ place, heap.outer? place = around? history place ∧
      (∀ outer, around? history place = some outer → outer < place) ∧
      heap.chain place = place :: (around? history place).elim [] heap.chain ∧
      (heap.chain place).Pairwise (· > ·) ∧
      (heap.chain place).getLast? = some (heap.root place) ∧
      around? history (heap.root place) = none) ∧
    (∀ place name, find? heap place (.symbol name) =
      (heap.chain place).find? fun owner => (latest? history owner name).isSome) ∧
    (∀ place name owner, find? heap place (.symbol name) = some owner →
      ∃ value, latest? history owner name = some value ∧
        lookup room place (.symbol name) world = .finished value world) ∧
    (∀ place name, find? heap place (.symbol name) = none →
      lookup room place (.symbol name) world = .failed (.error (.unbound name)) world) ∧
    (∀ owner < created history, ∀ name value,
      let after := run room (.define owner (.symbol name) value :: history)
      ∀ place other,
        let isSeen := other = name ∧
          ComesTo owner (fun passed => latest? history passed name ≠ none) (heap.chain place)
        (isSeen → lookup room place (.symbol other) after = .finished value after) ∧
        (¬ isSeen → ∀ found, lookup room place (.symbol other) after = .finished found after ↔
          lookup room place (.symbol other) world = .finished found world)) ∧
    (∀ place, (heap.bindings place).map Prod.fst =
      ((definitions history place).map Prod.fst).eraseDups) ∧
    ∀ operation : Operation, (∃ after, operation.perform room world = .finished () after) ↔
      ∀ name ∈ operation.names, ∃ symbol, name = .symbol symbol := by
  intro world heap
  have records : Records history heap := records_run possible
  refine ⟨records.size, ?chains, records.find?_eq, ?latest, ?unbound, ?further, ?names,
    fun operation => operation.finishes_iff⟩
  case chains =>
    intro place
    have recorded : around? history = heap.outer? := funext fun other => (records.outer? other).symm
    rw [recorded]
    exact ⟨rfl, fun outer => Heap.lt_of_outer?, heap.chain_eq place, heap.pairwise_chain place,
      heap.getLast?_chain place, heap.outer?_root place⟩
  case latest =>
    intro place name owner found
    obtain ⟨value, latest, seen⟩ := records.exists_latest? found
    exact ⟨value, latest, lookup_eq_finished_iff.2 seen⟩
  case unbound => exact fun place name => lookup_of_find?_eq_none
  case further =>
    intro owner there name value after place other isSeen
    have present : owner < heap.size := records.size ▸ there
    have defined : after.heap = heap.define owner name value :=
      congrArg World.heap (run_cons (.define owner (.symbol name) value) history)
    have seen_iff : isSeen ↔ other = name ∧ ComesTo owner (heap.Binds name) (heap.chain place) := by
      rw [records.binds_eq]
    simp only [lookup_eq_finished_iff, defined, seen_iff]
    refine ⟨?_, fun unseen found => ?_⟩
    · rintro ⟨rfl, reached⟩
      exact Heap.lookup?_define_of_comesTo value present reached
    · by_cases same : other = name
      · subst same
        rw [Heap.lookup?_define_of_not_comesTo value fun reached => unseen ⟨rfl, reached⟩]
      · rw [Heap.lookup?_define_of_ne (Ne.symm same) value present]
  case names =>
    intro place
    rw [records.bindings]
    exact Bindings.map_fst_defineAll _

/-- A child made before anything was defined sees what its parent is given later, up to the name
that is no symbol; a definition of its own then hides the parent's. -/
theorem child_sees_later_definitions :
    let mapping : Mapping :=
      .ofPairs [(.symbol "b", .nil), (.string "b", .nil), (.symbol "c", .nil)]
    let history : List Operation :=
      [.update 0 mapping, .define 0 (.symbol "a") (.boolean true), .child 0, .new]
    let world := run .unlimited history
    let after := run .unlimited (.define 1 (.symbol "a") (.boolean false) :: history)
    IsHistory history ∧
      find? world.heap 1 (.symbol "b") = some 0 ∧
      lookup .unlimited 1 (.symbol "a") world = .finished (.boolean true) world ∧
      lookup .unlimited 1 (.symbol "c") world = .failed (.error (.unbound "c")) world ∧
      lookup .unlimited 1 (.symbol "a") after = .finished (.boolean false) after ∧
      (world.heap.bindings 0).map Prod.fst = ["a", "b"] := by
  intro mapping history world after
  have possible : IsHistory history :=
    .done (.done (.done (.done .start (by simp [Operation.place?])) (by
      simp [Operation.place?, created])) (by simp [Operation.place?, created]))
      (by simp [Operation.place?, created])
  obtain ⟨_, chains, finds, latest, unbound, further, names, _⟩ :=
    environments_answer_from_history .unlimited possible
  have outermost : world.heap.chain 0 = [0] := (chains 0).2.2.1
  have chain : world.heap.chain 1 = [1, 0] := (chains 1).2.2.1.trans (congrArg _ outermost)
  have found : find? world.heap 1 (.symbol "a") = some 0 := by
    rw [finds, chain]
    rfl
  obtain ⟨value, isLatest, seen⟩ := latest 1 "a" 0 found
  cases isLatest
  have nowhere : find? world.heap 1 (.symbol "c") = none := by
    rw [finds, chain]
    rfl
  refine ⟨possible, ?_, seen, unbound 1 "c" nowhere, ?_, names 0⟩
  · rw [finds, chain]
    rfl
  · refine (further 1 (by decide) "a" (.boolean false) 1 "a").1 ⟨rfl, ?_⟩
    rw [chain]
    exact .inl rfl

end Environment

end Lisp
