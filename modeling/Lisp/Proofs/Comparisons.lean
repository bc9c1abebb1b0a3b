import Mathlib.Data.List.Chain
import Lisp.Proofs.Equality

/-!
# Comparing several numbers

The comparisons look at each number and the next only, and equality at the first number and
each of the others.  Since the order of numbers is transitive, all of them say something
about every two of their arguments (`Builtin.holdsAlong_iff_pairwise`): the operation holds
just when its relation holds, between exact values, of each argument and every later one.
So the four orders and equality fit together, whatever kinds of numbers are mixed; and no
two numbers stand in any of these relations when one is NaN.

The arguments are all checked before any are compared.
-/

set_option autoImplicit false

namespace Lisp

/-- Whether two numbers have values that stand in a relation. -/
def Number.Related (order : EReal → EReal → Prop) (left right : Number) : Prop :=
  ∃ x y, left.value? = some x ∧ right.value? = some y ∧ order x y

namespace Number.Related

variable {order : EReal → EReal → Prop} {left middle right : Number}

theorem trans (transitive : ∀ {x y z}, order x y → order y z → order x z)
    (first : Related order left middle) (second : Related order middle right) :
    Related order left right := by
  obtain ⟨x, y, isLeft, isMiddle, below⟩ := first
  obtain ⟨y', z, isMiddle', isRight, below'⟩ := second
  obtain rfl := Option.some.inj (isMiddle.symm.trans isMiddle')
  exact ⟨x, z, isLeft, isRight, transitive below below'⟩

theorem swap_iff : Related order left right ↔ Related (fun x y => order y x) right left := by
  constructor
  · rintro ⟨x, y, isLeft, isRight, related⟩
    exact ⟨y, x, isRight, isLeft, related⟩
  · rintro ⟨x, y, isRight, isLeft, related⟩
    exact ⟨y, x, isLeft, isRight, related⟩

theorem not_nan_left : ¬ Related order (.double .nan) right := by
  rintro ⟨x, y, isLeft, _⟩
  cases isLeft

theorem not_nan_right : ¬ Related order left (.double .nan) := by
  rintro ⟨x, y, _, isRight, _⟩
  cases isRight

/-- Numbers are equal when each is at most the other. -/
theorem antisymm (first : Related (· ≤ ·) left right) (second : Related (· ≥ ·) left right) :
    left.equal right = true := by
  obtain ⟨x, y, isLeft, isRight, atMost⟩ := first
  obtain ⟨x', y', isLeft', isRight', atLeast⟩ := second
  obtain rfl := Option.some.inj (isLeft.symm.trans isLeft')
  obtain rfl := Option.some.inj (isRight.symm.trans isRight')
  exact equal_iff.2 ⟨x, isLeft, isRight.trans (congrArg some (le_antisymm atLeast atMost))⟩

end Number.Related

/-- Several numbers of which one is NaN are not in any order. -/
theorem Number.not_pairwise_of_nan {order : EReal → EReal → Prop} {numbers : List Number}
    (several : 2 ≤ numbers.length) (hasNan : .double .nan ∈ numbers) :
    ¬ numbers.Pairwise (Number.Related order) := by
  intro inOrder
  match numbers, several with
  | first :: second :: rest, _ =>
    obtain ⟨ahead, _⟩ := List.pairwise_cons.1 inOrder
    rcases List.mem_cons.1 hasNan with rfl | later
    · exact Related.not_nan_left (ahead second List.mem_cons_self)
    · exact Related.not_nan_right (ahead _ later)

/-- Numbers that all have one value are in every order in which it is related to itself. -/
theorem Number.pairwise_of_alike {order : EReal → EReal → Prop} {numbers : List Number} {x : EReal}
    (alike : ∀ number ∈ numbers, number.value? = some x) (related : order x x) :
    numbers.Pairwise (Number.Related order) :=
  List.pairwise_of_forall_mem_list fun left isLeft right isRight =>
    ⟨x, x, alike left isLeft, alike right isRight, related⟩

namespace Builtin

/-! ## Along a list -/

section Along

variable {relation : Number → Number → Bool}

theorem holdsAlong_iff_isChain (numbers : List Number) :
    holdsAlong relation numbers = true ↔
      numbers.IsChain fun left right => relation left right = true := by
  induction numbers with
  | nil => simp [holdsAlong]
  | cons first rest ih =>
    cases rest with
    | nil => simp [holdsAlong]
    | cons second rest => rw [holdsAlong, Bool.and_eq_true, ih, List.isChain_cons_cons]

/-- **What holds of each number and the next holds of each and every later one, if it is
transitive.** -/
theorem holdsAlong_iff_pairwise {order : EReal → EReal → Prop}
    (transitive : ∀ {x y z}, order x y → order y z → order x z)
    (relates : ∀ {left right}, relation left right = true ↔ Number.Related order left right)
    (numbers : List Number) :
    holdsAlong relation numbers = true ↔ numbers.Pairwise (Number.Related order) := by
  have : Trans (Number.Related order) (Number.Related order) (Number.Related order) :=
    ⟨Number.Related.trans transitive⟩
  rw [holdsAlong_iff_isChain, ← List.isChain_iff_pairwise]
  simp only [relates]

theorem holdsAlong_reverse (numbers : List Number) :
    holdsAlong relation numbers.reverse =
      holdsAlong (fun left right => relation right left) numbers := by
  rw [Bool.eq_iff_iff, holdsAlong_iff_isChain, holdsAlong_iff_isChain, List.isChain_reverse]

end Along

/-! ## Numbers among the arguments -/

theorem numbers_map (operation : Builtin) (given : List Number) :
    numbers operation (given.map .number) = .ok given := by
  induction given with
  | nil => rfl
  | cons first rest ih =>
    rw [List.map_cons, numbers, ih]
    rfl

/-- The first argument that is no number is refused, whatever stands before and behind it. -/
theorem numbers_of_find? (operation : Builtin) {arguments : List Value} {other : Value}
    {kind : Value.Kind} (found : arguments.find? (fun argument => !argument.isNumber) = some other)
    (isKind : other.kind = .ok kind) :
    numbers operation arguments = .error (.error (.notNumber operation kind)) := by
  induction arguments with
  | nil => cases found
  | cons argument rest ih =>
    cases isNumber : argument.isNumber with
    | false =>
      rw [List.find?_cons_of_pos (by simp [isNumber]), Option.some.injEq] at found
      rw [numbers_of_not_isNumber operation isNumber, found, isKind]
      rfl
    | true =>
      rw [List.find?_cons_of_neg (by simp [isNumber])] at found
      cases argument with
      | number n =>
        rw [numbers, ih found]
        rfl
      | _ => cases isNumber

/-! ## The orders -/

/-- The order of values that a comparison stands for. -/
def order? : Builtin → Option (EReal → EReal → Prop)
  | .less => some (· < ·)
  | .lessOrEqual => some (· ≤ ·)
  | .greater => some (· > ·)
  | .greaterOrEqual => some (· ≥ ·)
  | _ => none

section Calls

variable (files : FileTree) (evaluator : Evaluator) (room : Room) (root : FrameId)

/-- A comparison checks its arguments and compares each number with the next, by a relation
that is the order it stands for. -/
theorem exists_ordered {operation : Builtin} {order : EReal → EReal → Prop}
    (compares : operation.order? = some order) :
    ∃ relation : Number → Number → Bool,
      (∀ arguments, operation.call files evaluator room root arguments =
        .ofExcept (ordered operation relation arguments)) ∧
      ∀ numbers, holdsAlong relation numbers = true ↔
        numbers.Pairwise (Number.Related order) := by
  cases operation with
  | less =>
    cases compares
    exact ⟨Number.less, fun _ => rfl, holdsAlong_iff_pairwise lt_trans Number.less_iff⟩
  | lessOrEqual =>
    cases compares
    exact ⟨Number.lessOrEqual, fun _ => rfl,
      holdsAlong_iff_pairwise le_trans Number.lessOrEqual_iff⟩
  | greater =>
    cases compares
    exact ⟨fun left right => right.less left, fun _ => rfl,
      holdsAlong_iff_pairwise gt_trans (Number.less_iff.trans Number.Related.swap_iff)⟩
  | greaterOrEqual =>
    cases compares
    exact ⟨fun left right => right.lessOrEqual left, fun _ => rfl,
      holdsAlong_iff_pairwise ge_trans (Number.lessOrEqual_iff.trans Number.Related.swap_iff)⟩
  | _ => cases compares

/-- **A comparison of numbers holds when all of them are in its order.** -/
theorem exists_compared {operation : Builtin} {order : EReal → EReal → Prop}
    (compares : operation.order? = some order) (given : List Number) :
    ∃ truth, operation.call files evaluator room root (given.map .number) =
      pure (.boolean truth) ∧ (truth = true ↔ given.Pairwise (Number.Related order)) := by
  obtain ⟨relation, called, along⟩ := exists_ordered files evaluator room root compares
  refine ⟨holdsAlong relation given, ?_, along given⟩
  rw [called, ordered, numbers_map]
  rfl

/-- **A comparison refuses the first argument that is no number.** -/
theorem call_of_not_number {operation : Builtin} {order : EReal → EReal → Prop}
    (compares : operation.order? = some order) {arguments : List Value} {other : Value}
    {kind : Value.Kind} (found : arguments.find? (fun argument => !argument.isNumber) = some other)
    (isKind : other.kind = .ok kind) :
    operation.call files evaluator room root arguments =
      Action.throw (.notNumber operation kind) := by
  obtain ⟨relation, called, _⟩ := exists_ordered files evaluator room root compares
  rw [called, ordered, numbers_of_find? operation found isKind]
  rfl

/-! ## Equality -/

theorem isEqual_number (first second : Number) :
    (Value.number first).isEqual room (.number second) =
      match room.enter? Room.comparing with
      | none => .error (.fault .stackExhausted)
      | some _ => .ok (first.equal second) := by
  rw [Value.isEqual]
  rfl

variable {room}

theorem allEqual_number {inner : Room} (entered : room.enter? Room.comparing = some inner)
    (first : Number) (rest : List Number) :
    allEqual room (.number first) (rest.map .number) = .ok (rest.all first.equal) := by
  induction rest with
  | nil => rfl
  | cons second rest ih =>
    rw [List.map_cons, allEqual, isEqual_number, entered, List.all_cons]
    cases first.equal second with
    | true => exact ih
    | false => rfl

theorem allEqual_number_of_full (full : room.enter? Room.comparing = none)
    (first second : Number) (rest : List Value) :
    allEqual room (.number first) (.number second :: rest) = .error (.fault .stackExhausted) := by
  rw [allEqual, isEqual_number, full]
  rfl

/-- All numbers equal the first when they are in order both ways. -/
theorem all_equal_iff (first : Number) (rest : List Number) :
    rest.all first.equal = true ↔
      (first :: rest).Pairwise (Number.Related (· ≤ ·)) ∧
        (first :: rest).Pairwise (Number.Related (· ≥ ·)) := by
  rw [List.all_eq_true]
  constructor
  · intro same
    cases rest with
    | nil => exact ⟨List.pairwise_singleton _ _, List.pairwise_singleton _ _⟩
    | cons second rest =>
      obtain ⟨x, isFirst, _⟩ := Number.equal_iff.1 (same second List.mem_cons_self)
      have alike : ∀ number ∈ first :: second :: rest, number.value? = some x := by
        refine List.forall_mem_cons.2 ⟨isFirst, fun number member => ?_⟩
        obtain ⟨y, isFirst', isNumber⟩ := Number.equal_iff.1 (same number member)
        rw [isNumber, ← isFirst', isFirst]
      exact ⟨Number.pairwise_of_alike alike le_rfl, Number.pairwise_of_alike alike le_rfl⟩
  · rintro ⟨ascending, descending⟩ second member
    exact ((List.pairwise_cons.1 ascending).1 second member).antisymm
      ((List.pairwise_cons.1 descending).1 second member)

variable (room)

/-- **Equal numbers are those that are in order both ways, if there is room to compare them.** -/
theorem call_equal_numbers {inner : Room} (entered : room.enter? Room.comparing = some inner)
    {given : List Number} (nonempty : given ≠ []) {atMost atLeast : Bool}
    (ascending : atMost = true ↔ given.Pairwise (Number.Related (· ≤ ·)))
    (descending : atLeast = true ↔ given.Pairwise (Number.Related (· ≥ ·))) :
    equal.call files evaluator room root (given.map .number) =
      pure (.boolean (atMost && atLeast)) := by
  cases given with
  | nil => exact absurd rfl nonempty
  | cons first rest =>
    have both : rest.all first.equal = (atMost && atLeast) := by
      rw [Bool.eq_iff_iff, all_equal_iff, Bool.and_eq_true, ascending, descending]
    rw [call, List.map_cons, same, allEqual_number entered, both]
    rfl

end Calls

end Builtin

open Builtin in
/-- **The four comparisons of numbers are the orders of the extended reals between every two
of the arguments.**  So with the arguments the other way round the converse comparison says the
same, all are equal when they are in both of the weak orders, and nothing holds of several
numbers of which one is NaN.  Equality needs room for one comparison of two values, and fails
where there is none.  An argument that is no number is refused by each comparison, the first
one if there are several, whatever the arguments before it are. -/
theorem comparisons_agree (files : FileTree) (evaluator : Evaluator) (root : FrameId) :
    (∀ (operation : Builtin) (order : EReal → EReal → Prop), operation.order? = some order →
      ∀ (room : Room) (numbers : List Number), ∃ truth,
        operation.call files evaluator room root (numbers.map .number) = pure (.boolean truth) ∧
          (truth = true ↔ numbers.Pairwise (Number.Related order))) ∧
    (∀ (room : Room) (numbers : List Number),
      greater.call files evaluator room root (numbers.map .number) =
        less.call files evaluator room root (numbers.reverse.map .number) ∧
      greaterOrEqual.call files evaluator room root (numbers.map .number) =
        lessOrEqual.call files evaluator room root (numbers.reverse.map .number)) ∧
    (∀ (room : Room) (numbers : List Number), room.enter? Room.comparing ≠ none → numbers ≠ [] →
      ∃ atMost atLeast,
        lessOrEqual.call files evaluator room root (numbers.map .number) = pure (.boolean atMost) ∧
        greaterOrEqual.call files evaluator room root (numbers.map .number) =
          pure (.boolean atLeast) ∧
        equal.call files evaluator room root (numbers.map .number) =
          pure (.boolean (atMost && atLeast))) ∧
    (∀ (room : Room) (numbers : List Number), room.enter? Room.comparing = none →
      2 ≤ numbers.length →
        equal.call files evaluator room root (numbers.map .number) =
          Action.fail (.fault .stackExhausted)) ∧
    (∀ (room : Room) (numbers : List Number), 2 ≤ numbers.length → .double .nan ∈ numbers →
      (∀ operation : Builtin, operation.order? ≠ none →
        operation.call files evaluator room root (numbers.map .number) = pure (.boolean false)) ∧
      (room.enter? Room.comparing ≠ none →
        equal.call files evaluator room root (numbers.map .number) = pure (.boolean false))) ∧
    ∀ (room : Room) (arguments : List Value), (∀ shown, .foreign shown ∉ arguments) →
      (∃ argument ∈ arguments, argument.isNumber = false) →
        ∃ other kind, arguments.find? (fun argument => !argument.isNumber) = some other ∧
          other.kind = .ok kind ∧ ∀ operation : Builtin, operation.order? ≠ none →
            ∃ error : Error, operation.call files evaluator room root arguments =
              Action.throw error ∧ error.category = .wrongType ∧
              error.message = "All arguments to " ++ operation.name ++
                " must be numbers, got " ++ kind.name := by
  refine ⟨?pairs, ?reversed, ?equality, ?full, ?nan, ?refused⟩
  case pairs =>
    intro operation order compares room numbers
    exact exists_compared files evaluator room root compares numbers
  case reversed =>
    intro room numbers
    constructor
    · rw [call, call, ordered, ordered, numbers_map, numbers_map]
      simp only [bind, Except.bind, holdsAlong_reverse]
    · rw [call, call, ordered, ordered, numbers_map, numbers_map]
      simp only [bind, Except.bind, holdsAlong_reverse]
  case equality =>
    intro room numbers roomy nonempty
    obtain ⟨inner, entered⟩ := Option.ne_none_iff_exists'.1 roomy
    obtain ⟨atMost, called, ascending⟩ :=
      exists_compared files evaluator room root (show lessOrEqual.order? = some _ from rfl) numbers
    obtain ⟨atLeast, called', descending⟩ := exists_compared files evaluator room root
      (show greaterOrEqual.order? = some _ from rfl) numbers
    exact ⟨atMost, atLeast, called, called',
      call_equal_numbers files evaluator room root entered nonempty ascending descending⟩
  case full =>
    intro room numbers full several
    match numbers, several with
    | first :: second :: rest, _ =>
      rw [call, List.map_cons, List.map_cons, same, allEqual_number_of_full full]
      rfl
  case nan =>
    intro room numbers several hasNan
    have unordered : ∀ order, ¬ numbers.Pairwise (Number.Related order) :=
      fun order => Number.not_pairwise_of_nan several hasNan
    constructor
    · intro operation compares
      obtain ⟨order, isOrder⟩ := Option.ne_none_iff_exists'.1 compares
      obtain ⟨truth, called, holds⟩ := exists_compared files evaluator room root isOrder numbers
      have isFalse : truth = false := Bool.eq_false_iff.2 fun isTrue => unordered _ (holds.1 isTrue)
      rw [called, isFalse]
    · intro roomy
      obtain ⟨inner, entered⟩ := Option.ne_none_iff_exists'.1 roomy
      exact call_equal_numbers files evaluator room root entered (List.ne_nil_of_mem hasNan)
        (iff_of_false Bool.false_ne_true (unordered _))
        (iff_of_false Bool.false_ne_true (unordered _))
  case refused =>
    intro room arguments noForeign notAll
    obtain ⟨other, found⟩ : ∃ other, arguments.find? (fun argument => !argument.isNumber) =
        some other := by
      rw [← Option.isSome_iff_exists, List.find?_isSome]
      simpa using notAll
    obtain ⟨kind, isKind⟩ : ∃ kind, other.kind = .ok kind := by
      cases other with
      | foreign shown => exact absurd (List.mem_of_find?_eq_some found) (noForeign shown)
      | _ => exact ⟨_, rfl⟩
    refine ⟨other, kind, found, isKind, fun operation compares => ?_⟩
    obtain ⟨order, isOrder⟩ := Option.ne_none_iff_exists'.1 compares
    exact ⟨.notNumber operation kind,
      call_of_not_number files evaluator room root isOrder found isKind, rfl, rfl⟩

/-- The double 2 ^ 53, the integer after it, which no double is, and infinity are in order; the
first two are not equal; NaN is in order with nothing; and a text behind numbers that are out
of order is still refused. -/
theorem comparisons_past_doubles :
    let power : Number := .double (.finite false leadingBit 1 (by decide))
    let next : Number := .integer 9007199254740993
    let infinite : Number := .double (.infinity false)
    let call (operation : Builtin) (arguments : List Value) :=
      operation.call .empty (evaluate .empty 0) .unlimited 0 arguments
    [power, next, infinite].Pairwise (Number.Related (· < ·)) ∧
      call .equal [.number power, .number next] = pure (.boolean false) ∧
      call .lessOrEqual [.number (.double .nan), .number next] = pure (.boolean false) ∧
      ∃ error : Error, call .less [.number next, .number power, .string "1"] =
        Action.throw error ∧ error.category = .wrongType ∧
        error.message = "All arguments to < must be numbers, got string" := by
  intro power next infinite call
  obtain ⟨pairs, _, equality, _, nan, refused⟩ := comparisons_agree .empty (evaluate .empty 0) 0
  have compares : ∀ operation ∈ [Builtin.less, .lessOrEqual], operation.order? ≠ none := by
    simp [Builtin.order?]
  refine ⟨?_, ?_, ?_, ?_⟩
  · obtain ⟨truth, called, inOrder⟩ := pairs .less (· < ·) rfl .unlimited [power, next, infinite]
    have isTrue : Value.boolean truth = .boolean true :=
      Action.pure_injective (called.symm.trans rfl)
    cases isTrue
    exact inOrder.1 rfl
  · obtain ⟨atMost, atLeast, _, called, same⟩ :=
      equality .unlimited [power, next] (by decide) (by decide)
    have isFalse : Value.boolean atLeast = .boolean false :=
      Action.pure_injective (called.symm.trans rfl)
    cases isFalse
    rw [Bool.and_false] at same
    exact same
  · obtain ⟨unordered, _⟩ := nan .unlimited [.double .nan, next] (by decide) (by decide)
    exact unordered .lessOrEqual (compares _ (by decide))
  · obtain ⟨other, kind, found, isKind, fails⟩ := refused .unlimited
      [.number next, .number power, .string "1"] (by simp) (by simp [Value.isNumber])
    cases found
    cases isKind
    exact fails .less (compares _ (by decide))

end Lisp
