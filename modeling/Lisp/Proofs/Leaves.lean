import Mathlib.Data.List.Forall2
import Lisp.Form
import Lisp.Value.Equality

/-!
# The leaves of a value

A value is a tree of lists, and its leaves are the values in it that are no lists.
What holds of every value is proved of the leaves, and of a list from its items
(`Value.induction`).

Two values are equal when they have the same shape and equal leaves: a list is
equal just to the lists whose items are equal one by one (`Value.isEqual_list_iff`).
The reader makes lists, but each of their leaves is a token
(`exists_token_of_mem_leaves`).
-/

set_option autoImplicit false

namespace Lisp

namespace Value

/-! ## Leaves -/

/-- A value that is no list. -/
def IsLeaf (value : Value) : Prop :=
  ∀ items, value ≠ .list items

/-- A fact about all values holds when it holds of every leaf, and of a list if it
holds of the items. -/
@[elab_as_elim]
theorem induction {motive : Value → Prop} (leaf : ∀ value, value.IsLeaf → motive value)
    (list : ∀ items, (∀ item ∈ items, motive item) → motive (.list items)) (value : Value) :
    motive value :=
  match value with
  | .list items => list items fun item _ => induction leaf list item
  | .nil => leaf _ nofun
  | .boolean _ => leaf _ nofun
  | .number _ => leaf _ nofun
  | .string _ => leaf _ nofun
  | .symbol _ => leaf _ nofun
  | .closure .. => leaf _ nofun
  | .native .. => leaf _ nofun
  | .foreign _ => leaf _ nofun
termination_by sizeOf value
decreasing_by
  have := List.sizeOf_lt_of_mem ‹item ∈ items›
  simp only [Value.list.sizeOf_spec]
  omega

mutual

/-- The values in a value that are no lists, from left to right. -/
def leaves : Value → List Value
  | .list items => leavesOfItems items
  | value => [value]

/-- The leaves of the items of a list. -/
def leavesOfItems : List Value → List Value
  | [] => []
  | item :: rest => leaves item ++ leavesOfItems rest

end

theorem leaves_of_isLeaf {value : Value} (leaf : value.IsLeaf) : value.leaves = [value] := by
  cases value with
  | list items => exact absurd rfl (leaf items)
  | _ => simp only [leaves]

@[simp]
theorem mem_leaves_list {leaf : Value} {items : List Value} :
    leaf ∈ (Value.list items).leaves ↔ ∃ item ∈ items, leaf ∈ item.leaves := by
  rw [leaves]
  induction items with
  | nil => simp [leavesOfItems]
  | cons item rest ih => simp [leavesOfItems, ih]

/-! ## Equality -/

/-- Two values are equal, however deep they nest. -/
def Equal (left right : Value) : Prop :=
  left.isEqual .unlimited right = .ok true

/-- Two values are found equal with so much room. -/
def EqualIn (room : Room) (left right : Value) : Prop :=
  left.isEqual room right = .ok true

theorem equal_number_iff {n m : Number} : Equal (.number n) (.number m) ↔ n.equal m = true := by
  simp [Equal, isEqual, Room.enter?, kind, bind, Except.bind, pure, Except.pure]

/-- Values that are equal have the same kind. -/
theorem exists_kind_of_equal {left right : Value} (same : Equal left right) :
    ∃ kind, left.kind = .ok kind ∧ right.kind = .ok kind := by
  rw [Equal, isEqual, Room.enter?] at same
  cases leftKind : left.kind with
  | error failure => simp [leftKind, bind, Except.bind] at same
  | ok kind =>
    cases rightKind : right.kind with
    | error failure => simp [leftKind, rightKind, bind, Except.bind] at same
    | ok kind' =>
      by_cases sameKind : kind = kind'
      · exact ⟨kind, rfl, by rw [sameKind]⟩
      · simp [leftKind, rightKind, sameKind, bind, Except.bind, pure, Except.pure] at same

theorem areEqual_iff {room : Room} {items items' : List Value}
    (sameLength : items.length = items'.length) :
    areEqual room items items' = .ok true ↔ List.Forall₂ (EqualIn room) items items' := by
  induction items generalizing items' with
  | nil =>
    cases List.length_eq_zero_iff.1 sameLength.symm
    simp [areEqual, pure, Except.pure]
  | cons item rest ih =>
    cases items' with
    | nil => simp at sameLength
    | cons item' rest' =>
      rw [List.forall₂_cons, ← ih (by simpa using sameLength), areEqual, EqualIn]
      cases item.isEqual room item' with
      | error failure => simp [bind, Except.bind]
      | ok same => cases same <;> simp [bind, Except.bind, pure, Except.pure]

/-- **A list is equal to the lists whose items are equal one by one, inside it.** -/
theorem equalIn_list_iff {room : Room} {items : List Value} {value : Value} :
    EqualIn room (.list items) value ↔ ∃ inner items', room.enter? Room.comparing = some inner ∧
      value = .list items' ∧ List.Forall₂ (EqualIn inner) items items' := by
  rw [EqualIn, isEqual]
  cases entered : room.enter? Room.comparing with
  | none => simp
  | some inner =>
    cases value with
    | list items' =>
      by_cases sameLength : items.length = items'.length
      · simp [kind, sameLength, bind, Except.bind, areEqual_iff sameLength]
      · have : ¬ List.Forall₂ (EqualIn inner) items items' :=
          fun same => sameLength same.length_eq
        simp [kind, sameLength, this, bind, Except.bind, pure, Except.pure]
    | _ => simp [kind, bind, Except.bind, pure, Except.pure]

theorem isEqual_list_iff {items : List Value} {value : Value} :
    Equal (.list items) value ↔
      ∃ items', value = .list items' ∧ List.Forall₂ Equal items items' := by
  refine (@equalIn_list_iff .unlimited items value).trans ⟨?_, ?_⟩
  · rintro ⟨_, items', entered, isList, pairwise⟩
    cases entered
    exact ⟨items', isList, pairwise⟩
  · rintro ⟨items', isList, pairwise⟩
    exact ⟨.unlimited, items', rfl, isList, pairwise⟩

/-- Each item of a list stands opposite an equal item of a list with equal items. -/
theorem exists_equal_item {items items' : List Value}
    (pairwise : List.Forall₂ Equal items items') :
    ∀ item ∈ items, ∃ item' ∈ items', Equal item item' := by
  induction pairwise with
  | nil => simp
  | @cons item item' rest rest' same others ih =>
    intro other member
    rcases List.mem_cons.1 member with rfl | member
    · exact ⟨item', by simp, same⟩
    · obtain ⟨opposite, inside, equal⟩ := ih other member
      exact ⟨opposite, List.mem_cons_of_mem _ inside, equal⟩

end Value

/-! ## Reading -/

/-- A property of values that lists take from their items holds of every value
that was read, if it holds of the atoms and of the values read before. -/
theorem readInto_inherits {property : Value → Prop}
    (list : ∀ items : List Value, (∀ item ∈ items, property item) → property (.list items))
    (room : Room) (openLists : List (List Value)) (tokens : List String)
    (before : ∀ items ∈ openLists, ∀ item ∈ items, property item)
    (atoms : ∀ token ∈ tokens, token ≠ "(" → token ≠ ")" →
      ∀ value, Value.ofAtom token = .ok value → property value) :
    ∀ value, (readInto room openLists tokens).result = .ok value → property value := by
  fun_induction readInto room openLists tokens with
  | case1 | case2 | case3 | case5 | case8 =>
    intro value read
    cases read
  | case4 room openLists rest inner _ ih =>
    have older : ∀ items ∈ [] :: openLists, ∀ item ∈ items, property item := by
      simpa using before
    exact ih older fun token member => atoms token (List.mem_cons_of_mem _ member)
  | case6 room rest items _ =>
    intro value read
    cases read
    exact list _ fun item member => before items (by simp) item (by simpa using member)
  | case7 room rest items around further _ ih =>
    obtain ⟨inside, outside⟩ := List.forall_mem_cons.1 before
    obtain ⟨beside, outside⟩ := List.forall_mem_cons.1 outside
    have complete : property (.list items.reverse) :=
      list _ fun item member => inside item (by simpa using member)
    have older := List.forall_mem_cons.2 ⟨List.forall_mem_cons.2 ⟨complete, beside⟩, outside⟩
    exact ih older fun token member => atoms token (List.mem_cons_of_mem _ member)
  | case9 room token rest notOpen notClose value atom =>
    intro value read
    cases read
    exact atoms token (by simp) notOpen notClose value atom
  | case10 room token rest notOpen notClose value atom items further ih =>
    obtain ⟨beside, outside⟩ := List.forall_mem_cons.1 before
    have complete := atoms token (by simp) notOpen notClose value atom
    have older := List.forall_mem_cons.2 ⟨List.forall_mem_cons.2 ⟨complete, beside⟩, outside⟩
    exact ih older fun token member => atoms token (List.mem_cons_of_mem _ member)

/-- What a token can stand for. -/
theorem Value.ofAtom_cases {token : String} {value : Value}
    (atom : Value.ofAtom token = .ok value) :
    (∃ x, value = .ofDouble x) ∨ (∃ truth, value = .boolean truth) ∨ value = .nil ∨
      (∃ text, value = .string text) ∨ value = .symbol token := by
  unfold Value.ofAtom at atom
  dsimp only at atom
  repeat' split at atom
  all_goals cases atom
  · exact .inl ⟨_, rfl⟩
  · exact .inr (.inl ⟨_, rfl⟩)
  · exact .inr (.inl ⟨_, rfl⟩)
  · exact .inr (.inr (.inl rfl))
  · exact .inr (.inr (.inr (.inl ⟨_, rfl⟩)))
  · exact .inr (.inr (.inr (.inr rfl)))

/-- An atom is its own only leaf. -/
theorem Value.isLeaf_ofAtom {token : String} {value : Value}
    (atom : Value.ofAtom token = .ok value) : value.IsLeaf := by
  rcases Value.ofAtom_cases atom with ⟨_, rfl⟩ | ⟨_, rfl⟩ | rfl | ⟨_, rfl⟩ | rfl
  all_goals exact nofun

/-- **Every leaf of the first form of a text is one of its tokens.** -/
theorem exists_token_of_mem_leaves {room : Room} {source : String} {value leaf : Value}
    (read : readText room source = .ok value) (member : leaf ∈ value.leaves) :
    ∃ token ∈ tokenize source, token ≠ "(" ∧ token ≠ ")" ∧ Value.ofAtom token = .ok leaf := by
  have form : (readInto room [] (tokenize source)).result = .ok value := by
    unfold readText readNested readForm at read
    dsimp only at read
    split at read
    · cases read
    · split at read
      · next found => rw [found]; exact read
      · cases read
  let property (value : Value) : Prop := ∀ leaf ∈ value.leaves, ∃ token ∈ tokenize source,
    token ≠ "(" ∧ token ≠ ")" ∧ Value.ofAtom token = .ok leaf
  refine @readInto_inherits property ?_ room [] _ (by simp) ?_ value form leaf member
  · intro items each leaf member
    obtain ⟨item, inside, member⟩ := Value.mem_leaves_list.1 member
    exact each item inside leaf member
  · intro token inside notOpen notClose value atom leaf member
    rw [Value.leaves_of_isLeaf (Value.isLeaf_ofAtom atom), List.mem_singleton] at member
    exact ⟨token, inside, notOpen, notClose, member ▸ atom⟩

end Lisp
