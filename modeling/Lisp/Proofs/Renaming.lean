import Lisp.Builtin.Call
import Lisp.Proofs.OrdinaryValues

/-!
# Values under other names

Frames and closures are known by the order in which they were made.  Where they are made in
another order, the same values turn up under other names: a renaming says which
(`Renaming`), and the renamed value stands for the same thing (`Value.rename`).

Nothing that a native operation computes from its arguments alone depends on these names,
since different things keep different names (`Renaming.Respects`).
-/

set_option autoImplicit false

namespace Lisp

/-- New names for frames and for the identities of closures; different ones stay different. -/
structure Renaming where
  frame : FrameId → FrameId
  identity : Nat → Nat
  frame_injective : Function.Injective frame
  identity_injective : Function.Injective identity

/-- The renaming that leaves all names as they are. -/
def Renaming.same : Renaming where
  frame := id
  identity := id
  frame_injective := Function.injective_id
  identity_injective := Function.injective_id

/-- Whether a renaming leaves the names of all that has been made as they are. -/
structure Renaming.Fixes (naming : Renaming) (extent : Extent) : Prop where
  frame {frame : FrameId} : frame < extent.frames → naming.frame frame = frame
  identity {identity : Nat} : identity < extent.closures → naming.identity identity = identity

theorem Renaming.fixes_same (extent : Extent) : same.Fixes extent :=
  ⟨fun _ => rfl, fun _ => rfl⟩

theorem Renaming.fixes_nothing (naming : Renaming) : naming.Fixes .nothing :=
  ⟨fun there => absurd there (Nat.not_lt_zero _), fun known => absurd known (Nat.not_lt_zero _)⟩

namespace Value

mutual

/-- A value with the frames and closures in it renamed. -/
@[simp]
def rename (naming : Renaming) : Value → Value
  | .list items => .list (renameItems naming items)
  | .closure identity parameters body frame =>
    .closure (naming.identity identity) parameters (rename naming body) (naming.frame frame)
  | .native operation root => .native operation (naming.frame root)
  | value => value

/-- The items of a list with the frames and closures in them renamed. -/
def renameItems (naming : Renaming) : List Value → List Value
  | [] => []
  | item :: rest => rename naming item :: renameItems naming rest

end

section

variable (naming : Renaming)

@[simp]
theorem renameItems_eq_map (items : List Value) :
    renameItems naming items = items.map (rename naming) := by
  induction items with
  | nil => rw [renameItems, List.map_nil]
  | cons item rest ih => rw [renameItems, ih, List.map_cons]

theorem rename_list (items : List Value) :
    (Value.list items).rename naming = .list (items.map (rename naming)) := by
  rw [rename, renameItems_eq_map]

/-- A value that is plain is known by no name that could be changed. -/
theorem rename_of_isPlain {value : Value} (plain : value.IsPlain) :
    value.rename naming = value := by
  cases value with
  | list items => exact plain.elim
  | closure identity parameters body frame => exact plain.elim
  | native operation root => exact plain.elim
  | _ => simp only [rename]

/-- **A renaming that leaves what has been made as it is leaves ordinary values as they are.** -/
theorem IsOrdinary.rename_eq {extent : Extent} {value : Value} (ordinary : value.IsOrdinary extent)
    {naming : Renaming} (fixes : naming.Fixes extent) : value.rename naming = value := by
  induction ordinary with
  | list _ ih =>
    rw [rename_list, Value.list.injEq]
    exact (List.map_congr_left ih).trans (List.map_id _)
  | closure known _ _ there ih => rw [rename, ih, fixes.frame there, fixes.identity known]
  | native there => rw [rename, fixes.frame there]
  | _ => exact rename_of_isPlain naming trivial

/-- Without anything made no part of a value could be renamed. -/
theorem rename_of_nothing {value : Value} (ordinary : value.IsOrdinary .nothing) :
    value.rename naming = value :=
  ordinary.rename_eq (Renaming.fixes_nothing naming)

theorem map_rename_of_nothing {items : List Value} (each : ∀ item ∈ items, item.IsOrdinary .nothing) :
    items.map (rename naming) = items :=
  (List.map_congr_left fun item member => rename_of_nothing naming (each item member)).trans
    (List.map_id _)

/-! ## What does not depend on names -/

@[simp]
theorem kind_rename (value : Value) : (value.rename naming).kind = value.kind := by
  cases value <;> simp only [rename, kind]

@[simp]
theorem isTruthy_rename (value : Value) : (value.rename naming).isTruthy = value.isTruthy := by
  cases value <;> simp only [rename, isTruthy]

@[simp]
theorem isNumber_rename (value : Value) : (value.rename naming).isNumber = value.isNumber := by
  cases value <;> simp only [rename, isNumber]

@[simp]
theorem shown_rename (room : Room) (value : Value) :
    (value.rename naming).shown room = value.shown room := by
  induction value using Value.induction generalizing room with
  | leaf value isLeaf =>
    cases value with
    | list items => exact absurd rfl (isLeaf items)
    | closure | native =>
      rw [rename, shown.eq_def, shown.eq_def]
    | _ => simp only [rename]
  | list items ih =>
    have texts : ∀ inner, shownItems inner (items.map (rename naming)) = shownItems inner items := by
      intro inner
      induction items with
      | nil => rw [List.map_nil]
      | cons item rest further =>
        obtain ⟨first, others⟩ := List.forall_mem_cons.1 ih
        rw [List.map_cons, shownItems, shownItems, first, further others]
    rw [rename_list, shown, shown]
    simp only [texts]

theorem renderItems_rename_of {style : Style} {room : Room} {items : List Value}
    (each : ∀ item ∈ items, (item.rename naming).render style room = item.render style room) :
    renderItems style room (items.map (rename naming)) = renderItems style room items := by
  induction items with
  | nil => rw [List.map_nil]
  | cons item rest ih =>
    obtain ⟨first, others⟩ := List.forall_mem_cons.1 each
    rw [List.map_cons, renderItems, renderItems, first, ih others]

@[simp]
theorem render_rename (style : Style) (room : Room) (value : Value) :
    (value.rename naming).render style room = value.render style room := by
  induction value using Value.induction generalizing room with
  | leaf value isLeaf =>
    cases value with
    | list items => exact absurd rfl (isLeaf items)
    | closure | native =>
      rw [rename, render.eq_def, render.eq_def]
    | _ => simp only [rename]
  | list items ih =>
    have texts : ∀ inner, renderItems style inner (items.map (rename naming)) =
        renderItems style inner items :=
      fun inner => renderItems_rename_of naming fun item member => ih item member inner
    rw [rename_list, render, render]
    simp only [texts]

@[simp]
theorem renderItems_rename (style : Style) (room : Room) (items : List Value) :
    renderItems style room (items.map (rename naming)) = renderItems style room items :=
  renderItems_rename_of naming fun item _ => render_rename naming style room item

/-- **Values are equal under new names just when they are equal under the old ones.** -/
@[simp]
theorem isEqual_rename (room : Room) (left right : Value) :
    (left.rename naming).isEqual room (right.rename naming) = left.isEqual room right := by
  induction left using Value.induction generalizing room right with
  | leaf left isLeaf =>
    rw [isEqual.eq_def, isEqual.eq_def, kind_rename, kind_rename]
    cases left with
    | list items => exact absurd rfl (isLeaf items)
    | closure identity parameters body frame =>
      cases right <;> simp [rename, naming.identity_injective.beq_eq]
    | native operation root =>
      cases right <;> simp [rename, naming.frame_injective.beq_eq]
    | _ => cases right <;> simp only [rename]
  | list items ih =>
    have items_equal : ∀ inner others, areEqual inner (items.map (rename naming))
        (others.map (rename naming)) = areEqual inner items others := by
      intro inner
      induction items with
      | nil =>
        intro others
        rw [List.map_nil, areEqual.eq_def, areEqual.eq_def]
      | cons item rest further =>
        obtain ⟨first, more⟩ := List.forall_mem_cons.1 ih
        intro others
        cases others with
        | nil => rw [List.map_nil, List.map_cons, areEqual.eq_def, areEqual.eq_def]
        | cons other others =>
          rw [List.map_cons, List.map_cons, areEqual, areEqual, first, further more]
    rw [isEqual.eq_def, isEqual.eq_def, kind_rename, kind_rename]
    cases right with
    | list others => simp only [rename_list, items_equal, List.length_map]
    | _ => simp [rename]

end

end Value

/-! ## Arithmetic on doubles -/

namespace Number

/-- Whether a number is a double. -/
def IsDouble : Number → Prop
  | .double _ => True
  | .integer _ => False

variable {numbers : List Number} (doubles : ∀ n ∈ numbers, n.IsDouble)
include doubles

/-- Combining doubles one after the other with a double gives a double. -/
theorem exists_of_fold (fold : Double → List Number → Option Double)
    {combine : Double → Double → Double} (nil : ∀ start, fold start [] = some start)
    (cons : ∀ start x rest, fold start (.double x :: rest) = fold (combine start x) rest)
    (start : Double) : ∃ x, fold start numbers = some x := by
  induction numbers generalizing start with
  | nil => exact ⟨start, nil start⟩
  | cons n rest ih =>
    obtain ⟨first, others⟩ := List.forall_mem_cons.1 doubles
    cases n with
    | double x =>
      rw [cons]
      exact ih others _
    | integer n => exact first.elim

theorem exists_sum? : ∃ x, sum? numbers = some x := by
  cases numbers with
  | nil => exact ⟨_, rfl⟩
  | cons n rest =>
    obtain ⟨first, others⟩ := List.forall_mem_cons.1 doubles
    cases n with
    | double x => exact exists_of_fold others addAll? (fun _ => rfl) (fun _ _ _ => rfl) _
    | integer n => exact first.elim

theorem exists_product? : ∃ x, product? numbers = some x :=
  exists_of_fold doubles multiplyAll? (fun _ => rfl) (fun _ _ _ => rfl) _

theorem exists_difference? {first : Number} (double : first.IsDouble) :
    ∃ x, first.difference? numbers = some x := by
  cases first with
  | integer n => exact double.elim
  | double x =>
    cases numbers with
    | nil => exact ⟨_, rfl⟩
    | cons n rest =>
      exact exists_of_fold doubles subtractAll? (fun _ => rfl) (fun _ _ _ => rfl) x

theorem exists_quotient? {first : Number} (double : first.IsDouble) :
    ∃ x, first.quotient? numbers = some x := by
  cases first with
  | integer n => exact double.elim
  | double x =>
    cases numbers with
    | nil => exact ⟨_, rfl⟩
    | cons n rest =>
      exact exists_of_fold doubles divideAll? (fun _ => rfl) (fun _ _ _ => rfl) x

end Number

/-! ## Native operations -/

/-- Whether a computation on ordinary arguments does not depend on names, and gives a result
of some kind or fails in an ordinary way. -/
def Renaming.Respects {α : Type} (naming : Renaming) (extent : Extent)
    (compute : List Value → Except Failure α) (result : α → Prop) : Prop :=
  ∀ arguments, (∀ argument ∈ arguments, argument.IsOrdinary extent) →
    compute (arguments.map (Value.rename naming)) = compute arguments ∧
      GivesOrdinary result (compute arguments)

namespace Renaming

variable {α β : Type} {naming : Renaming} {extent : Extent}

theorem Respects.bind {compute : List Value → Except Failure α} {next : α → Except Failure β}
    {result : α → Prop} {result' : β → Prop} (respects : naming.Respects extent compute result)
    (goes_on : ∀ value, result value → GivesOrdinary result' (next value)) :
    naming.Respects extent (fun arguments => compute arguments >>= next) result' := by
  intro arguments ordinary
  obtain ⟨same, gives⟩ := respects arguments ordinary
  exact ⟨congrArg (· >>= next) same, gives.bind goes_on⟩

/-- An operation on one argument, of which the names play no part. -/
theorem respects_onlyArgument (operation : Builtin) {next : Value → Except Failure α}
    {result : α → Prop}
    (same : ∀ value, next (value.rename naming) = next value)
    (gives : ∀ value : Value, value.IsOrdinary extent → GivesOrdinary result (next value)) :
    naming.Respects extent (fun arguments => Builtin.onlyArgument operation arguments >>= next)
      result := by
  intro arguments ordinary
  match arguments, ordinary with
  | [argument], ordinary => exact ⟨same argument, gives argument (ordinary argument (by simp))⟩
  | [], _ => exact ⟨rfl, trivial⟩
  | first :: second :: rest, _ => exact ⟨by simp [Builtin.onlyArgument], trivial⟩

/-- The arguments that are numbers are doubles. -/
theorem respects_numbers (operation : Builtin) :
    naming.Respects extent (Builtin.numbers operation) fun numbers => ∀ n ∈ numbers, n.IsDouble := by
  intro arguments ordinary
  induction arguments with
  | nil => exact ⟨rfl, List.forall_mem_nil _⟩
  | cons argument rest ih =>
    obtain ⟨first, others⟩ := List.forall_mem_cons.1 ordinary
    obtain ⟨same, gives⟩ := ih others
    rw [List.map_cons]
    cases isNumber : argument.isNumber with
    | true =>
      cases first with
      | double x =>
        have plain : (Value.number (.double x)).rename naming = .number (.double x) :=
          Value.rename_of_isPlain naming trivial
        rw [plain, Builtin.numbers, Builtin.numbers, same]
        exact ⟨rfl, gives.bind fun numbers doubles => List.forall_mem_cons.2 ⟨trivial, doubles⟩⟩
      | _ => cases isNumber
    | false =>
      rw [Builtin.numbers_of_not_isNumber operation isNumber,
        Builtin.numbers_of_not_isNumber operation (by rw [Value.isNumber_rename, isNumber]),
        Value.kind_rename]
      exact ⟨rfl, first.gives_kind fun _ => trivial⟩

/-- Arithmetic on doubles gives a double. -/
theorem gives_numeric {result : Option Double} (computed : ∃ x, result = some x) :
    GivesOrdinary (Value.IsOrdinary .nothing) (Builtin.numeric result) := by
  obtain ⟨x, rfl⟩ := computed
  exact .double x

theorem respects_ordered (operation : Builtin) (relation : Number → Number → Bool) :
    naming.Respects extent (Builtin.ordered operation relation) (Value.IsOrdinary .nothing) :=
  (respects_numbers operation).bind fun _ _ => .boolean _

theorem respects_difference :
    naming.Respects extent Builtin.difference (Value.IsOrdinary .nothing) := by
  refine (respects_numbers .subtract).bind fun numbers doubles => ?_
  cases numbers with
  | nil => trivial
  | cons first rest =>
    obtain ⟨double, others⟩ := List.forall_mem_cons.1 doubles
    exact gives_numeric (Number.exists_difference? others double)

theorem respects_quotient :
    naming.Respects extent Builtin.quotient (Value.IsOrdinary .nothing) := by
  refine (respects_numbers .divide).bind fun numbers doubles => ?_
  cases numbers with
  | nil => trivial
  | cons first rest =>
    obtain ⟨double, others⟩ := List.forall_mem_cons.1 doubles
    exact gives_numeric (Number.exists_quotient? others double)

theorem allEqual_rename (room : Room) (first : Value) (others : List Value) :
    Builtin.allEqual room (first.rename naming) (others.map (Value.rename naming)) =
      Builtin.allEqual room first others := by
  induction others with
  | nil => rfl
  | cons other rest ih =>
    simp only [List.map_cons, Builtin.allEqual, Value.isEqual_rename, ih]

theorem respects_same (room : Room) :
    naming.Respects extent (Builtin.same room) (Value.IsOrdinary .nothing) := by
  intro arguments ordinary
  cases arguments with
  | nil => exact ⟨rfl, trivial⟩
  | cons first rest =>
    obtain ⟨one, others⟩ := List.forall_mem_cons.1 ordinary
    have equal : GivesOrdinary Anything (Builtin.allEqual room first rest) := by
      induction rest with
      | nil => trivial
      | cons other rest ih =>
        obtain ⟨two, others⟩ := List.forall_mem_cons.1 others
        refine (one.gives_isEqual room two).bind fun same _ => ?_
        cases same
        · trivial
        · exact ih (List.forall_mem_cons.2 ⟨one, others⟩) others
    refine ⟨?_, equal.bind fun _ _ => .boolean _⟩
    rw [List.map_cons, Builtin.same, Builtin.same, allEqual_rename]

theorem respects_isListValue :
    naming.Respects extent Builtin.isListValue (Value.IsOrdinary .nothing) := by
  refine respects_onlyArgument .isList (fun value => ?_) fun value _ => ?_
  · cases value <;> simp [Value.rename]
  · cases value <;> exact .boolean _

/-- What is measured of a list does not depend on the names in its items. -/
theorem respects_listArgument (operation : Builtin) {measure : List Value → Value}
    (same : ∀ items, measure (items.map (Value.rename naming)) = measure items)
    (ordinary : ∀ items, (measure items).IsOrdinary .nothing) :
    naming.Respects extent (fun arguments => do
      return measure (← Builtin.listArgument operation arguments)) (Value.IsOrdinary .nothing) := by
  simp only [Builtin.listArgument, bind_assoc]
  refine respects_onlyArgument operation (fun value => ?_) fun value isOrdinary => ?_
  · cases value with
    | list items => simp [same]
    | _ => simp [Value.rename, Value.kind]
  · split
    · exact ordinary []
    · exact ordinary _
    · have refused : GivesOrdinary Anything (do
          throw (.error (.notList operation (← value.kind))) : Except Failure (List Value)) :=
        isOrdinary.gives_kind fun _ => trivial
      exact refused.bind fun items _ => ordinary items

theorem respects_renderItems (style : Style) (room : Room) :
    naming.Respects extent (Value.renderItems style room) Anything := by
  intro arguments ordinary
  refine ⟨Value.renderItems_rename naming style room arguments, ?_⟩
  exact Value.IsOrdinary.gives_renderItems fun argument member =>
    (ordinary argument member).gives_render style room

theorem respects_joined (room : Room) :
    naming.Respects extent (Builtin.joined room) (Value.IsOrdinary .nothing) :=
  (respects_renderItems .display room).bind fun _ _ => .string _

theorem respects_line (room : Room) : naming.Respects extent (Builtin.line room) Anything :=
  (respects_renderItems .readable room).bind fun _ _ => trivial

theorem respects_fileText (files : FileTree) :
    naming.Respects extent (Builtin.fileText files) (Value.IsOrdinary .nothing) := by
  refine respects_onlyArgument .readFile (fun value => ?_) fun value ordinary => ?_
  · cases value <;> simp [Value.rename, Value.kind]
  · split
    · next name =>
      dsimp only
      by_cases nul : name.contains '\x00' = true
      · rw [if_pos nul]
        exact .inr rfl
      · rw [if_neg nul]
        split
        · exact .string _
        · trivial
    · exact ordinary.gives_kind fun _ => trivial

theorem respects_formOfText (room : Room) :
    naming.Respects extent (Builtin.formOfText room) (Value.IsOrdinary .nothing) := by
  refine respects_onlyArgument .readText (fun value => ?_) fun value ordinary => ?_
  · cases value <;> simp [Value.rename, Value.kind]
  · split
    · next source => exact gives_ordinary_readText room source
    · exact ordinary.gives_kind fun _ => trivial

end Renaming

end Lisp
