import Lisp.Proofs.Leaves
import Lisp.Proofs.Number.Exact
import Lisp.Proofs.Printing

/-!
# Printing and reading back

A value that is printed readably and read back comes back equal just when its
leaves do: finite doubles and integers that are doubles, symbols whose names can
be read, all strings, the truth values and nil.

The printed text of a leaf that does not come back may still be a token, but one
that stands for something else: an infinity is printed as the name of a symbol, an
integer between two doubles as the nearer of them.  A value with only such leaves
is legible, and its text reads as one value, which is an equal one when no leaf is
lost (`exists_readsAs_of_legible`).  A value that is equal to one that was read is
legible, since the leaves of that one are tokens (`isLegible_of_equal`).
-/

set_option autoImplicit false

namespace Lisp.Value

/-! ## Leaves that come back -/

/-- The leaves that come back from their printed form. -/
def IsFaithful : Value → Prop
  | .nil | .boolean _ | .string _ => True
  | .number n => n.IsFiniteDouble
  | .symbol name => IsReadableName name
  | _ => False

/-- The leaves whose printed form is a token. -/
def IsLegible : Value → Prop
  | .nil | .boolean _ | .string _ => True
  | .number n => ∃ x, n.toDouble? = some x
  | .symbol name => IsReadableName name
  | _ => False

theorem IsFaithful.isLegible {leaf : Value} (faithful : leaf.IsFaithful) : leaf.IsLegible := by
  cases leaf with
  | number n =>
    cases n with
    | double x => exact ⟨x, rfl⟩
    | integer n =>
      obtain ⟨_, _, _, _, converted, _⟩ := Number.toDouble?_integer faithful
      exact ⟨_, converted⟩
  | _ => exact faithful

/-! ## Printing a leaf -/

theorem readsAs_symbol {name : String} (readable : IsReadableName name) :
    ReadsAs name.toList (.symbol name) := by
  have closed : IsClosed name.toList := fun quoted => absurd quoted readable.notQuoted
  exact ReadsAs.atom readable.isToken closed readable.notOpen readable.notClose readable.ofAtom

theorem readsAs_finite (negative : Bool) (significand : ℕ) (exponent : ℤ)
    (normal : IsNormal significand exponent) :
    ReadsAs (Double.finite negative significand exponent normal).positionalText.toList
      (.ofDouble (.finite negative significand exponent normal)) := by
  obtain ⟨numeral, reads, _⟩ := Double.read?_positionalText negative significand exponent normal
  have claims := Numeral.claimsNumber_of_read? reads
  refine ReadsAs.atom (isToken_positionalText _) ?_ ?_ ?_ (ofAtom_finite _ _ _ normal)
  · intro quoted
    exact absurd quoted (Numeral.head?_ne_quote_of_claimsNumber claims)
  · intro opens
    rw [opens] at claims
    cases claims
  · intro closes
    rw [closes] at claims
    cases claims

/-- An infinity and NaN are printed as names that can be read. -/
theorem isReadableName_positionalText {x : Double}
    (other : ¬ (Number.double x).IsFiniteDouble) : IsReadableName x.positionalText := by
  have alone := (tokenize_eq_self_iff _).2 (isToken_positionalText x)
  cases x with
  | nan => exact ⟨alone, by decide, by decide, by decide, by decide, by decide, by decide, by decide⟩
  | infinity negative =>
    cases negative
    · exact ⟨alone, by decide, by decide, by decide, by decide, by decide, by decide, by decide⟩
    · exact ⟨alone, by decide, by decide, by decide, by decide, by decide, by decide, by decide⟩
  | finite negative significand exponent normal =>
    exact absurd ⟨negative, significand, exponent, normal, rfl⟩ other

/-- A number is equal to the finite double that it is printed as just when it is
exactly that double. -/
theorem equal_double_iff {n : Number} {negative : Bool} {significand : ℕ} {exponent : ℤ}
    {normal : IsNormal significand exponent}
    (converted : n.toDouble? = some (.finite negative significand exponent normal)) :
    n.equal (.double (.finite negative significand exponent normal)) = true ↔
      n.IsFiniteDouble := by
  cases n with
  | double x =>
    cases converted
    exact iff_of_true (Number.equal_finite_self _ _ _ normal) ⟨_, _, _, normal, rfl⟩
  | integer n =>
    rw [Number.equal_integer_double]
    constructor
    · rintro ⟨negative, significand, exponent, normal, -, same⟩
      exact ⟨negative, significand, exponent, normal, same⟩
    · intro exact_double
      obtain ⟨negative, significand, exponent, normal, nearest, same⟩ :=
        Number.toDouble?_integer exact_double
      rw [converted, Option.some.injEq] at nearest
      exact ⟨negative, significand, exponent, normal, nearest, same⟩

/-- A number is printed as a token for its double if that is finite, and else as the
name of a symbol. -/
theorem exists_readsAs_number {n : Number} {x : Double} (converted : n.toDouble? = some x) :
    ∃ back, ReadsAs x.positionalText.toList back ∧
      (Equal (.number n) back ↔ n.IsFiniteDouble) := by
  by_cases finite : (Number.double x).IsFiniteDouble
  · obtain ⟨negative, significand, exponent, normal, rfl⟩ := finite
    refine ⟨_, readsAs_finite negative significand exponent normal, ?_⟩
    rw [← equal_double_iff converted]
    exact equal_number_iff
  · refine ⟨_, readsAs_symbol (isReadableName_positionalText finite), ?_⟩
    have different : ¬ Equal (.number n) (.symbol x.positionalText) := by
      intro same
      obtain ⟨kind, isNumber, isSymbol⟩ := exists_kind_of_equal same
      cases isNumber
      cases isSymbol
    have lost : ¬ n.IsFiniteDouble := by
      intro exact_double
      cases n with
      | double y =>
        cases converted
        exact finite exact_double
      | integer n =>
        obtain ⟨_, _, _, normal, nearest, _⟩ := Number.toDouble?_integer exact_double
        rw [converted, Option.some.injEq] at nearest
        exact finite ⟨_, _, _, normal, nearest⟩
    exact iff_of_false different lost

/-- **A legible leaf is printed as a token that stands for an equal value just when
the leaf is faithful.** -/
theorem exists_readsAs_leaf {leaf : Value} (legible : leaf.IsLegible) :
    ∃ text back, leaf.render .readable .unlimited = .ok text ∧ ReadsAs text.toList back ∧
      (Equal leaf back ↔ leaf.IsFaithful) := by
  cases leaf with
  | nil =>
    have reads : ReadsAs "nil".toList .nil :=
      ReadsAs.atom (Lexeme.isToken_atom (by decide) (by decide)) nofun (by decide) (by decide) rfl
    exact ⟨_, .nil, rfl, reads, iff_of_true rfl trivial⟩
  | boolean value =>
    cases value with
    | true =>
      have reads : ReadsAs "true".toList (.boolean true) :=
        ReadsAs.atom (Lexeme.isToken_atom (by decide) (by decide)) nofun (by decide) (by decide) rfl
      exact ⟨_, .boolean true, rfl, reads, iff_of_true rfl trivial⟩
    | false =>
      have reads : ReadsAs "false".toList (.boolean false) :=
        ReadsAs.atom (Lexeme.isToken_atom (by decide) (by decide)) nofun (by decide) (by decide) rfl
      exact ⟨_, .boolean false, rfl, reads, iff_of_true rfl trivial⟩
  | number n =>
    obtain ⟨x, converted⟩ := legible
    obtain ⟨back, reads, same⟩ := exists_readsAs_number converted
    have printed : (Value.number n).render .readable .unlimited = .ok x.positionalText := by
      simp [render, Room.enter?, Number.positionalText?, converted]
    exact ⟨_, back, printed, reads, same⟩
  | string text =>
    have reads : ReadsAs (Style.readable.string text).toList (.string text) := by
      refine ReadsAs.atom (isToken_readable_string text) (isClosed_readable_string text) ?_ ?_
        (ofAtom_readable_string text)
      · intro opens
        simpa [toList_readable_string] using congrArg String.toList opens
      · intro closes
        simpa [toList_readable_string] using congrArg String.toList closes
    have same : Equal (.string text) (.string text) := by
      simp [Equal, isEqual, Room.enter?, kind, bind, Except.bind, pure, Except.pure]
    exact ⟨_, .string text, by simp [render, Room.enter?], reads, iff_of_true same trivial⟩
  | symbol name =>
    have same : Equal (.symbol name) (.symbol name) := by
      simp [Equal, isEqual, Room.enter?, kind, bind, Except.bind, pure, Except.pure]
    exact ⟨name, .symbol name, by simp [render, Room.enter?], readsAs_symbol legible,
      iff_of_true same legible⟩
  | list items => exact legible.elim
  | closure identity parameters body frame => exact legible.elim
  | native operation root => exact legible.elim
  | foreign shown => exact legible.elim

/-! ## Printing a value -/

/-- The items of a list are printed one by one, when each of them is. -/
theorem exists_readsAs_items {items : List Value}
    (each : ∀ item ∈ items, ∃ text back, item.render .readable .unlimited = .ok text ∧
      ReadsAs text.toList back ∧ (Equal item back ↔ ∀ leaf ∈ item.leaves, leaf.IsFaithful)) :
    ∃ texts backs, renderItems .readable .unlimited items = .ok texts ∧
      List.Forall₂ ReadsAs (texts.map String.toList) backs ∧
      (List.Forall₂ Equal items backs ↔
        ∀ item ∈ items, ∀ leaf ∈ item.leaves, leaf.IsFaithful) := by
  induction items with
  | nil => exact ⟨[], [], by rw [renderItems], .nil, by simp⟩
  | cons item rest ih =>
    obtain ⟨first, others⟩ := List.forall_mem_cons.1 each
    obtain ⟨text, back, printed, reads, same⟩ := first
    obtain ⟨texts, backs, all_printed, all_read, all_same⟩ := ih others
    refine ⟨text :: texts, back :: backs, ?_, .cons reads all_read, ?_⟩
    · rw [renderItems, printed, all_printed]
      rfl
    · rw [List.forall₂_cons, List.forall_mem_cons, same, all_same]

/-- **The text of a legible value reads as one value, and as an equal one just when
every leaf is faithful.** -/
theorem exists_readsAs_of_legible {value : Value}
    (legible : ∀ leaf ∈ value.leaves, leaf.IsLegible) :
    ∃ text back, value.render .readable .unlimited = .ok text ∧ ReadsAs text.toList back ∧
      (Equal value back ↔ ∀ leaf ∈ value.leaves, leaf.IsFaithful) := by
  induction value using induction with
  | leaf value isLeaf =>
    rw [leaves_of_isLeaf isLeaf] at legible ⊢
    simp only [List.mem_singleton, forall_eq] at legible ⊢
    exact exists_readsAs_leaf legible
  | list items ih =>
    have each : ∀ item ∈ items, ∀ leaf ∈ item.leaves, leaf.IsLegible := by
      intro item inside leaf member
      exact legible leaf (mem_leaves_list.2 ⟨item, inside, member⟩)
    obtain ⟨texts, backs, printed, reads, same⟩ :=
      exists_readsAs_items fun item inside => ih item inside (each item inside)
    refine ⟨"(" ++ " ".intercalate texts ++ ")", .list backs, ?_, ?_, ?_⟩
    · rw [render]
      simp only [Room.enter?, printed]
      rfl
    · have text : ("(" ++ " ".intercalate texts ++ ")").toList =
          '(' :: ([' '].intercalate (texts.map String.toList) ++ [')']) := by
        simp
      rw [text]
      exact ReadsAs.list reads
    · have leafwise : (∀ leaf ∈ (Value.list items).leaves, leaf.IsFaithful) ↔
          ∀ item ∈ items, ∀ leaf ∈ item.leaves, leaf.IsFaithful := by
        simp only [mem_leaves_list]
        constructor
        · intro faithful item inside leaf member
          exact faithful leaf ⟨item, inside, member⟩
        · rintro faithful leaf ⟨item, inside, member⟩
          exact faithful item inside leaf member
      rw [leafwise, ← same, isEqual_list_iff]
      simp

/-! ## What an equal value was read from -/

/-- What is equal to an atom is legible. -/
theorem isLegible_of_equal_atom {leaf atom : Value} {token : String}
    (alone : IsToken token.toList) (notOpen : token ≠ "(") (notClose : token ≠ ")")
    (isAtom : ofAtom token = .ok atom) (same : Equal leaf atom) : leaf.IsLegible := by
  obtain ⟨kind, leafKind, atomKind⟩ := exists_kind_of_equal same
  -- The atom has the kind of a number, a truth value, nil, a string or a symbol, and so has the leaf.
  rcases ofAtom_cases isAtom with ⟨x, rfl⟩ | ⟨truth, rfl⟩ | rfl | ⟨text, rfl⟩ | rfl
  · cases atomKind
    cases leaf with
    | number n =>
      cases n with
      | double y => exact ⟨y, rfl⟩
      | integer n =>
        have exactly := (Number.equal_integer_double n x).1 (equal_number_iff.1 same)
        obtain ⟨negative, significand, exponent, normal, -, value⟩ := exactly
        have faithful : (Value.number (.integer n)).IsFaithful :=
          ⟨negative, significand, exponent, normal, value⟩
        exact faithful.isLegible
    | _ => cases leafKind
  · cases atomKind
    cases leaf with
    | boolean _ => trivial
    | _ => cases leafKind
  · cases atomKind
    cases leaf with
    | nil => trivial
    | _ => cases leafKind
  · cases atomKind
    cases leaf with
    | string _ => trivial
    | _ => cases leafKind
  · cases atomKind
    cases leaf with
    | symbol name =>
      have sameName : name = token := by
        simpa [Equal, isEqual, Room.enter?, Value.kind, bind, Except.bind, pure, Except.pure]
          using same
      subst sameName
      exact isReadableName_of_ofAtom alone notOpen notClose isAtom
    | _ => cases leafKind

/-- A value that is equal to one made of atoms is legible. -/
theorem isLegible_of_equal {value back : Value} (same : Equal value back)
    (atoms : ∀ atom ∈ back.leaves, ∃ token, IsToken token.toList ∧ token ≠ "(" ∧ token ≠ ")" ∧
      ofAtom token = .ok atom) :
    ∀ leaf ∈ value.leaves, leaf.IsLegible := by
  induction value using induction generalizing back with
  | leaf value isLeaf =>
    have backLeaf : back.IsLeaf := by
      rintro items rfl
      obtain ⟨kind, valueKind, listKind⟩ := exists_kind_of_equal same
      cases listKind
      cases value with
      | list items => exact isLeaf items rfl
      | _ => cases valueKind
    rw [leaves_of_isLeaf backLeaf] at atoms
    obtain ⟨token, alone, notOpen, notClose, isAtom⟩ := atoms back (List.mem_singleton_self back)
    rw [leaves_of_isLeaf isLeaf]
    intro leaf member
    rw [List.mem_singleton.1 member]
    exact isLegible_of_equal_atom alone notOpen notClose isAtom same
  | list items ih =>
    obtain ⟨items', rfl, pairwise⟩ := isEqual_list_iff.1 same
    intro leaf member
    obtain ⟨item, inside, member⟩ := mem_leaves_list.1 member
    obtain ⟨item', inside', sameItem⟩ := exists_equal_item pairwise item inside
    refine ih item inside sameItem ?_ leaf member
    intro atom leafOfItem
    exact atoms atom (mem_leaves_list.2 ⟨item', inside', leafOfItem⟩)

/-! ## The round trip -/

/-- Whether a value that is printed readably and read back comes back equal. -/
def RoundTrips (value : Value) : Prop :=
  ∃ text back, value.render .readable .unlimited = .ok text ∧
    readText .unlimited text = .ok back ∧ value.isEqual .unlimited back = .ok true

theorem isLegible_of_roundTrips {value : Value} (comes_back : RoundTrips value) :
    ∀ leaf ∈ value.leaves, leaf.IsLegible := by
  obtain ⟨text, back, -, read, same⟩ := comes_back
  refine isLegible_of_equal same ?_
  intro atom member
  obtain ⟨token, isToken, notOpen, notClose, isAtom⟩ := exists_token_of_mem_leaves read member
  exact ⟨token, isToken_of_mem_tokenize isToken, notOpen, notClose, isAtom⟩

/-- **Printing and reading back give an equal value just when every leaf is a finite
double or an integer that is one, a symbol whose name can be read, a string, a
truth value or nil; and the text of such a value is one form and nothing else.** -/
theorem roundTrips_iff (value : Value) :
    (RoundTrips value ↔ ∀ leaf ∈ value.leaves, leaf.IsFaithful) ∧
      ((∀ leaf ∈ value.leaves, leaf.IsFaithful) →
        ∃ text back, value.render .readable .unlimited = .ok text ∧
          readSource .unlimited text = ⟨[back], none, []⟩ ∧
          value.isEqual .unlimited back = .ok true) := by
  have legible_of_faithful : (∀ leaf ∈ value.leaves, leaf.IsFaithful) →
      ∀ leaf ∈ value.leaves, leaf.IsLegible :=
    fun faithful leaf member => (faithful leaf member).isLegible
  refine ⟨⟨?_, ?_⟩, ?_⟩
  · intro comes_back
    obtain ⟨text, back, printed, reads, same⟩ :=
      exists_readsAs_of_legible (isLegible_of_roundTrips comes_back)
    obtain ⟨text', back', printed', read, equal⟩ := comes_back
    -- The value that was read is the one that the text reads as.
    rw [printed, Except.ok.injEq] at printed'
    subst printed'
    rw [reads.readText_eq, Except.ok.injEq] at read
    subst read
    exact same.1 equal
  · intro faithful
    obtain ⟨text, back, printed, reads, same⟩ :=
      exists_readsAs_of_legible (legible_of_faithful faithful)
    exact ⟨text, back, printed, reads.readText_eq, same.2 faithful⟩
  · intro faithful
    obtain ⟨text, back, printed, reads, same⟩ :=
      exists_readsAs_of_legible (legible_of_faithful faithful)
    exact ⟨text, back, printed, reads.readSource_eq, same.2 faithful⟩

end Lisp.Value
