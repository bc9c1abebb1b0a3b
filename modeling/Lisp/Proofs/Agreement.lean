import Lisp.Proofs.LessRoom
import Lisp.Proofs.Number.Order

/-!
# Agreement of values

Comparing lists compares their items, one level further inside.  A comparison of two values
that are not both lists asks only whether they agree (`Value.agrees`): whether they are of one
kind and hold the same, numbers exactly.  So equality of a value that is no list is agreement,
given room for one level (`Value.equalIn_leaf_iff`).
-/

set_option autoImplicit false

namespace Lisp

/-! ## Room for several levels -/

namespace Room

/-- Whether there is room to compare values that nest so deep. -/
def HasLevels (room : Room) (levels : Nat) : Prop :=
  (Room.frames (levels * comparing)).AtMost room

theorem hasLevels_zero (room : Room) : room.HasLevels 0 := by
  cases room with
  | unlimited => trivial
  | frames left =>
    rw [HasLevels, Nat.zero_mul]
    exact Nat.zero_le left

/-- One level more fits when a level can be entered and the others fit inside it. -/
theorem hasLevels_succ_iff {room : Room} {levels : Nat} :
    room.HasLevels (levels + 1) ↔
      ∃ inner, room.enter? comparing = some inner ∧ inner.HasLevels levels := by
  rw [HasLevels, Nat.succ_mul]
  constructor
  · exact exists_enter? _ _
  · rintro ⟨inner, entered, roomy⟩
    rw [← leave_of_enter? entered]
    exact roomy.leave comparing

theorem HasLevels.mono {room : Room} {levels fewer : Nat} (roomy : room.HasLevels levels)
    (less : fewer ≤ levels) : room.HasLevels fewer := by
  have atMost : (Room.frames (fewer * comparing)).AtMost (.frames (levels * comparing)) :=
    Nat.mul_le_mul_right comparing less
  exact atMost.trans roomy

end Room

namespace Value

variable {room : Room}

/-! ## Agreement -/

/-- What a comparison says of two values that are not both lists. -/
def agrees : Value → Value → Bool
  | .nil, .nil => true
  | .boolean truth, .boolean truth' => truth == truth'
  | .number n, .number n' => n.equal n'
  | .string text, .string text' => text == text'
  | .symbol name, .symbol name' => name == name'
  | .closure identity .., .closure identity' .. => identity == identity'
  | .native operation root, .native operation' root' => operation == operation' && root == root'
  | _, _ => false

/-- Two values of one kind that is not the kind of lists, and what they share. -/
inductive Agreement : Value → Value → Prop where
  | nil : Agreement .nil .nil
  | boolean (truth : Bool) : Agreement (.boolean truth) (.boolean truth)
  | number {n n' : Number} (same : n.equal n' = true) : Agreement (.number n) (.number n')
  | string (text : String) : Agreement (.string text) (.string text)
  | symbol (name : String) : Agreement (.symbol name) (.symbol name)
  | closure (identity : Nat) {parameters parameters' : List String} {body body' : Value}
      {frame frame' : FrameId} :
      Agreement (.closure identity parameters body frame)
        (.closure identity parameters' body' frame')
  | native (operation : Builtin) (root : FrameId) :
      Agreement (.native operation root) (.native operation root)

theorem agreement_of_agrees {left right : Value} (same : left.agrees right = true) :
    Agreement left right := by
  cases left with
  | nil =>
    cases right with
    | nil => exact .nil
    | _ => cases same
  | boolean truth =>
    cases right with
    | boolean truth' => exact beq_iff_eq.1 same ▸ .boolean truth
    | _ => cases same
  | number n =>
    cases right with
    | number n' => exact .number same
    | _ => cases same
  | string text =>
    cases right with
    | string text' => exact beq_iff_eq.1 same ▸ .string text
    | _ => cases same
  | symbol name =>
    cases right with
    | symbol name' => exact beq_iff_eq.1 same ▸ .symbol name
    | _ => cases same
  | list items => cases right <;> cases same
  | closure identity parameters body frame =>
    cases right with
    | closure identity' parameters' body' frame' => exact beq_iff_eq.1 same ▸ .closure identity
    | _ => cases same
  | native operation root =>
    cases right with
    | native operation' root' =>
      obtain ⟨sameOperation, sameRoot⟩ := Bool.and_eq_true_iff.1 same
      exact beq_iff_eq.1 sameOperation ▸ beq_iff_eq.1 sameRoot ▸ .native operation root
    | _ => cases same
  | foreign shown => cases right <;> cases same

theorem agrees_iff {left right : Value} : left.agrees right = true ↔ Agreement left right := by
  refine ⟨agreement_of_agrees, fun agreement => ?_⟩
  cases agreement with
  | number same => exact same
  | _ => simp [agrees]

theorem Agreement.symm {left right : Value} (same : Agreement left right) :
    Agreement right left := by
  cases same with
  | @number n n' same => exact .number (n.equal_comm n' ▸ same)
  | closure identity => exact .closure identity
  | _ => constructor

theorem agrees_comm (left right : Value) : left.agrees right = right.agrees left := by
  rw [Bool.eq_iff_iff, agrees_iff, agrees_iff]
  exact ⟨Agreement.symm, Agreement.symm⟩

theorem agrees_trans {first second third : Value} (same : first.agrees second = true)
    (same' : second.agrees third = true) : first.agrees third = true := by
  rw [agrees_iff] at *
  cases same with
  | number same =>
    cases same' with
    | number same' => exact .number (Number.equal_trans same same')
  | closure identity =>
    cases same' with
    | closure => exact .closure identity
  | _ => exact same'

theorem isLeaf_of_agrees {left right : Value} (same : left.agrees right = true) :
    right.IsLeaf := by
  rintro items rfl
  cases agrees_iff.1 same

theorem not_agrees_of_foreign {left right : Value}
    (foreign : (∃ shown, left = .foreign shown) ∨ ∃ shown, right = .foreign shown) :
    left.agrees right = false := by
  rcases foreign with ⟨shown, rfl⟩ | ⟨shown, rfl⟩
  · rfl
  · cases left <;> rfl

theorem isEqual_of_full (full : room.enter? Room.comparing = none) (left right : Value) :
    left.isEqual room right = .error (.fault .stackExhausted) := by
  rw [isEqual, full]

/-- A comparison of two values that are not both lists asks only whether they agree. -/
theorem isEqual_of_kinds {inner : Room} (entered : room.enter? Room.comparing = some inner)
    {left right : Value} {leftKind rightKind : Kind} (isLeft : left.kind = .ok leftKind)
    (isRight : right.kind = .ok rightKind) (notLists : left.IsLeaf ∨ right.IsLeaf) :
    left.isEqual room right = .ok (left.agrees right) := by
  rw [isEqual, entered]
  cases left with
  | foreign shown => cases isLeft
  | list items =>
    cases right with
    | foreign shown => cases isRight
    | list items' => exact (notLists.elim (· _ rfl) (· _ rfl)).elim
    | _ => rfl
  | _ =>
    cases right with
    | foreign shown => cases isRight
    | _ => rfl

/-- A comparison of two lists compares their items. -/
theorem isEqual_list {inner : Room} (entered : room.enter? Room.comparing = some inner)
    (items items' : List Value) :
    (Value.list items).isEqual room (.list items') =
      if items.length = items'.length then areEqual inner items items' else .ok false := by
  rw [isEqual, entered]
  by_cases sameLength : items.length = items'.length
  · simp [kind, sameLength, bind, Except.bind]
  · simp [kind, sameLength, bind, Except.bind, pure, Except.pure]

/-- A value of the host cannot be compared. -/
theorem exists_failure_of_foreign {inner : Room}
    (entered : room.enter? Room.comparing = some inner) {left right : Value}
    (foreign : (∃ shown, left = .foreign shown) ∨ ∃ shown, right = .foreign shown) :
    ∃ failure, left.isEqual room right = .error failure := by
  rw [isEqual, entered]
  rcases foreign with ⟨shown, rfl⟩ | ⟨shown, rfl⟩
  · exact ⟨_, rfl⟩
  · cases left <;> exact ⟨_, rfl⟩

theorem exists_kind_or_foreign (value : Value) :
    (∃ kind, value.kind = .ok kind) ∨ ∃ shown, value = .foreign shown := by
  cases value with
  | foreign shown => exact .inr ⟨shown, rfl⟩
  | _ => exact .inl ⟨_, rfl⟩

/-- **A value that is no list is equal to those that it agrees with, given room for one level.** -/
theorem equalIn_leaf_iff {left right : Value} (isLeaf : left.IsLeaf) :
    EqualIn room left right ↔ room.HasLevels 1 ∧ left.agrees right = true := by
  rw [EqualIn, Room.hasLevels_succ_iff]
  cases entered : room.enter? Room.comparing with
  | none => simp [isEqual_of_full entered]
  | some inner =>
    have roomy : ∃ inner', some inner = some inner' ∧ inner'.HasLevels 0 :=
      ⟨inner, rfl, inner.hasLevels_zero⟩
    rw [and_iff_right roomy]
    by_cases foreign : (∃ shown, left = .foreign shown) ∨ ∃ shown, right = .foreign shown
    · obtain ⟨failure, fails⟩ := exists_failure_of_foreign entered foreign
      simp [fails, not_agrees_of_foreign foreign]
    · rw [not_or] at foreign
      obtain ⟨leftKind, isLeft⟩ := left.exists_kind_or_foreign.resolve_right foreign.1
      obtain ⟨rightKind, isRight⟩ := right.exists_kind_or_foreign.resolve_right foreign.2
      rw [isEqual_of_kinds entered isLeft isRight (.inl isLeaf), Except.ok.injEq]

end Value

end Lisp
