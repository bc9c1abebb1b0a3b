import Lisp.Proofs.Agreement
import Lisp.Proofs.ClosureIdentities

/-!
# Equal values have one text

Values that are equal are rendered alike, in both styles and however much room there is to
render them in: to the same text, or to the same failure.  The negative zero is an exception:
the zeros are equal and are written with their signs.

A closure is written by its parameters, while it is found equal by its identity.  So it matters
that closures of one identity have the same parameters (`Value.SharesClosures`).  That is so of
any two values of a session, since each identity is given once
(`Interpreter.Gathers.sharesClosures`), and equal values of a session have one text.

An integer has the text of the double that it is converted to, and an integer that equals a
double is converted to that double (`Number.toDouble?_eq_of_equal`).  Integers that are too large
for a double are equal to no double, and none of them has a text.
-/

set_option autoImplicit false

namespace Lisp

namespace Value

/-- Whether the closures of one identity in two values have the same parameters. -/
def SharesClosures (left right : Value) : Prop :=
  ∀ identity parameters body frame parameters' body' frame',
    .closure identity parameters body frame ∈ left.leaves →
      .closure identity parameters' body' frame' ∈ right.leaves → parameters = parameters'

/-- Whether what equality asks of two values decides their texts: the closures of one identity
in them are one, and there is no negative zero. -/
structure AreTold (left right : Value) : Prop where
  closures : left.SharesClosures right
  noNegativeZero : .number (.double (.zero true)) ∉ left.leaves
  noNegativeZero' : .number (.double (.zero true)) ∉ right.leaves

theorem AreTold.of_mem {items items' : List Value} (told : AreTold (.list items) (.list items'))
    {item item' : Value} (inside : item ∈ items) (inside' : item' ∈ items') :
    AreTold item item' where
  closures identity parameters body frame parameters' body' frame' member member' :=
    told.closures identity parameters body frame parameters' body' frame'
      (mem_leaves_list.2 ⟨item, inside, member⟩) (mem_leaves_list.2 ⟨item', inside', member'⟩)
  noNegativeZero member := told.noNegativeZero (mem_leaves_list.2 ⟨item, inside, member⟩)
  noNegativeZero' member := told.noNegativeZero' (mem_leaves_list.2 ⟨item', inside', member⟩)

/-- Values that agree are rendered alike. -/
theorem render_eq_of_agrees {left right : Value} (told : AreTold left right)
    (same : left.agrees right = true) (style : Style) (room : Room) :
    left.render style room = right.render style room := by
  rw [render.eq_def, render.eq_def style room right]
  cases room.enter? Room.writing with
  | none => rfl
  | some inner =>
    cases agrees_iff.1 same with
    | @number n n' equal =>
      have notZero : n ≠ .double (.zero true) := fun isZero =>
        told.noNegativeZero (List.mem_singleton.2 (congrArg number isZero.symm))
      have notZero' : n' ≠ .double (.zero true) := fun isZero =>
        told.noNegativeZero' (List.mem_singleton.2 (congrArg number isZero.symm))
      simp only [Number.positionalText?, Number.toDouble?_eq_of_equal notZero notZero' equal]
    | @closure identity parameters parameters' body body' frame frame' =>
      have sameParameters : parameters = parameters' :=
        told.closures identity parameters body frame parameters' body' frame'
          (List.mem_singleton_self _) (List.mem_singleton_self _)
      rw [sameParameters]
    | _ => rfl

/-- Lists of equal items are rendered alike if items that stand opposite each other are. -/
theorem renderItems_eq_of_equalIn {items items' : List Value} {style : Style} {room inside : Room}
    (each : ∀ item ∈ items, ∀ item' ∈ items', item.EqualIn room item' →
      item.render style inside = item'.render style inside)
    (pairwise : List.Forall₂ (EqualIn room) items items') :
    renderItems style inside items = renderItems style inside items' := by
  induction pairwise with
  | nil => rfl
  | cons same _ ih =>
    have first := each _ List.mem_cons_self _ List.mem_cons_self same
    have rest := ih fun item member item' member' =>
      each item (List.mem_cons_of_mem _ member) item' (List.mem_cons_of_mem _ member')
    rw [renderItems, renderItems, first, rest]

theorem render_eq_of_equalIn {room : Room} {left right : Value} (told : AreTold left right)
    (same : left.EqualIn room right) (style : Style) (space : Room) :
    left.render style space = right.render style space := by
  induction left using Value.induction generalizing room right space with
  | leaf left isLeaf =>
    exact render_eq_of_agrees told ((equalIn_leaf_iff isLeaf).1 same).2 style space
  | list items ih =>
    obtain ⟨inner, items', _, rfl, pairwise⟩ := equalIn_list_iff.1 same
    rw [render.eq_def, render.eq_def style space (.list items')]
    cases space.enter? Room.writing with
    | none => rfl
    | some inside =>
      have alike : renderItems style inside items = renderItems style inside items' := by
        refine renderItems_eq_of_equalIn (fun item member item' member' equal => ?_) pairwise
        exact ih item member (told.of_mem member member') equal inside
      simp only [alike]

/-- **Equal values have one text.**  If no negative zero occurs in two values and closures of one
identity are one closure, then values that are equal are rendered alike: in both styles and in
every room, to one text or to one failure. -/
theorem equal_values_have_one_text (left right : Value) (closures : left.SharesClosures right)
    (noNegativeZero : .number (.double (.zero true)) ∉ left.leaves)
    (noNegativeZero' : .number (.double (.zero true)) ∉ right.leaves) :
    ∀ room, left.EqualIn room right →
      ∀ style space, left.render style space = right.render style space :=
  fun _ same style space =>
    render_eq_of_equalIn ⟨closures, noNegativeZero, noNegativeZero'⟩ same style space

/-- The integer 2 ^ 53 and the double of that value, beside a closure in lists. -/
theorem integer_and_double_have_one_text :
    let power : Double := .finite false leadingBit 1 (by decide)
    let left : Value := .list [.number (.integer 9007199254740992), .closure 0 ["x"] .nil 0]
    let right : Value := .list [.ofDouble power, .closure 0 ["x"] .nil 0]
    left.SharesClosures right ∧
      .number (.double (.zero true)) ∉ left.leaves ∧
      .number (.double (.zero true)) ∉ right.leaves ∧
      left.EqualIn .unlimited right ∧
      ∀ style space, left.render style space = right.render style space := by
  intro power left right
  have leftLeaves : left.leaves =
      [.number (.integer 9007199254740992), .closure 0 ["x"] .nil 0] := rfl
  have rightLeaves : right.leaves = [.number (.double power), .closure 0 ["x"] .nil 0] := rfl
  have closures : left.SharesClosures right := by
    intro identity parameters body frame parameters' body' frame' member member'
    rw [leftLeaves] at member
    rw [rightLeaves] at member'
    simp only [List.mem_cons, reduceCtorEq, closure.injEq, List.not_mem_nil, false_or,
      or_false] at member member'
    rw [member.2.1, member'.2.1]
  have noNegativeZero : .number (.double (.zero true)) ∉ left.leaves := by simp [leftLeaves]
  have noNegativeZero' : .number (.double (.zero true)) ∉ right.leaves := by
    simp [rightLeaves, power, Double.zero]
  have same : left.EqualIn .unlimited right := rfl
  exact ⟨closures, noNegativeZero, noNegativeZero', same,
    equal_values_have_one_text left right closures noNegativeZero noNegativeZero' .unlimited same⟩

end Value

/-! ## Values of one session -/

/-- Values that one ledger knows share their closures. -/
theorem Ledger.Knows.sharesClosures {ledger : Ledger} {left right : Value}
    (knows : ledger.Knows left) (knows' : ledger.Knows right) : left.SharesClosures right := by
  intro identity parameters body frame parameters' body' frame' member member'
  have entered := (knows_closure_iff.1 (knows.of_mem_leaves member)).1
  have entered' := (knows_closure_iff.1 (knows'.of_mem_leaves member')).1
  have same : ClosureParts.mk parameters body frame = ⟨parameters', body', frame'⟩ :=
    Option.some.inj (entered.symm.trans entered')
  exact congrArg ClosureParts.parameters same

section

variable {host : Host} {settings : Settings} {interpreter : Interpreter} {start world : World}
variable (created : Interpreter.create host settings World.initial = .finished interpreter start)
variable {values : List Value} (gathers : interpreter.Gathers start world values)
variable {left right : Value} (member : left ∈ values) (member' : right ∈ values)
include created gathers member member'

/-- **Any two values gathered in a session share their closures.** -/
theorem Interpreter.Gathers.sharesClosures : left.SharesClosures right := by
  obtain ⟨ledger, records⟩ := exists_records_of_create Ledger.records_initial created
  obtain ⟨later, _, knows⟩ := gathers.exists_ledger records
  exact (knows left member).sharesClosures (knows right member')

/-- **Equal values of a session have one text, but for the zeros.** -/
theorem Interpreter.Gathers.render_eq (noNegativeZero : .number (.double (.zero true)) ∉ left.leaves)
    (noNegativeZero' : .number (.double (.zero true)) ∉ right.leaves) {room : Room}
    (same : left.EqualIn room right) (style : Style) (space : Room) :
    left.render style space = right.render style space :=
  Value.render_eq_of_equalIn
    ⟨gathers.sharesClosures created member member', noNegativeZero, noNegativeZero'⟩ same style space

end

end Lisp
