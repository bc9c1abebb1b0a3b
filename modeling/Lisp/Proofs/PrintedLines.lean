import Lisp.Proofs.Lines
import Lisp.Proofs.LexicalGrammar
import Lisp.Proofs.RoundTrip

/-!
# Printed lines

The operation that prints writes the readable texts of its arguments as one line.  When the
leaves of the arguments come back from their printed form, there is no line break in these
texts (`newline_not_mem_render`), and the line reads as the arguments (`exists_line`): as many
forms, and each equal to its argument.

A line keeps its tokens apart from whatever is written behind it.  So all that is printed by
several calls, one after the other, reads as the arguments of all of them in order
(`Prints.exists_printed`).  A call that cannot print one of its arguments writes nothing.
-/

set_option autoImplicit false

namespace Lisp

/-! ## No line breaks -/

/-- In a text that is a token but no literal there is no line break. -/
theorem IsToken.newline_not_mem {text : List Char} (isToken : IsToken text)
    (unquoted : text.head? ≠ some '"') : '\n' ∉ text := by
  cases text with
  | nil => simp
  | cons c rest =>
    rw [IsToken, Lexeme.split_cons] at isToken
    have stands := Lexeme.standsBefore_first c rest
    rw [(List.cons.inj isToken).1] at stands
    intro inside
    generalize c :: rest = text at stands unquoted inside
    generalize (Lexeme.first c rest).2 = after at stands
    cases stands with
    | splice => simp at inside
    | structural structural _ =>
      rw [← List.mem_singleton.1 inside] at structural
      exact absurd structural (by decide)
    | literal literal =>
      obtain ⟨items, _, rfl⟩ := literal
      exact unquoted rfl
    | unclosed => exact unquoted rfl
    | atom _ atom _ => exact absurd (atom _ inside) (by decide)

theorem Double.head?_positionalText (x : Double) : x.positionalText.toList.head? ≠ some '"' := by
  by_cases finite : (Number.double x).IsFiniteDouble
  · obtain ⟨negative, significand, exponent, normal, same⟩ := finite
    obtain rfl : x = _ := same
    obtain ⟨numeral, reads, _⟩ := Double.read?_positionalText negative significand exponent normal
    exact Numeral.head?_ne_quote_of_claimsNumber (Numeral.claimsNumber_of_read? reads)
  · exact (Value.isReadableName_positionalText finite).notQuoted

/-- Line breaks in a string are escaped. -/
theorem Text.newline_not_mem_escape (text : List Char) : '\n' ∉ escape text := by
  intro inside
  obtain ⟨c, _, inside⟩ := List.mem_flatMap.1 inside
  unfold escapeChar at inside
  split at inside
  · simp at inside
  split at inside
  · simp at inside
  split at inside
  · simp at inside
  · next other _ => exact other (List.mem_singleton.1 inside).symm

/-- Texts without line breaks, with spaces between them, have none. -/
theorem newline_not_mem_intercalate {texts : List String}
    (each : ∀ text ∈ texts, '\n' ∉ text.toList) : '\n' ∉ (" ".intercalate texts).toList := by
  rw [String.toList_intercalate]
  induction texts with
  | nil => simp
  | cons text rest ih =>
    obtain ⟨first, others⟩ := List.forall_mem_cons.1 each
    cases rest with
    | nil => simpa using first
    | cons second further =>
      rw [List.map_cons, List.map_cons, List.intercalate_cons_cons, List.mem_append,
        List.mem_append, ← List.map_cons]
      rintro ((inside | inside) | inside)
      · exact first inside
      · exact absurd inside (by decide)
      · exact ih others inside

namespace Value

theorem newline_not_mem_leaf {leaf : Value} (legible : leaf.IsLegible) {text : String}
    (printed : leaf.render .readable .unlimited = .ok text) : '\n' ∉ text.toList := by
  rw [render, Room.enter?] at printed
  cases leaf with
  | nil =>
    cases printed
    decide
  | boolean value =>
    cases value with
    | true =>
      cases printed
      decide
    | false =>
      cases printed
      decide
  | number n =>
    obtain ⟨x, converted⟩ := legible
    simp only [Number.positionalText?, converted, Option.map_some] at printed
    cases printed
    exact (isToken_positionalText x).newline_not_mem x.head?_positionalText
  | string string =>
    cases printed
    rw [toList_readable_string]
    simp [Text.newline_not_mem_escape]
  | symbol name =>
    cases printed
    exact legible.isToken.newline_not_mem legible.notQuoted
  | list items => exact legible.elim
  | closure identity parameters body frame => exact legible.elim
  | native operation root => exact legible.elim
  | foreign shown => exact legible.elim

theorem newline_not_mem_renderItems {items : List Value}
    (each : ∀ item ∈ items, ∀ text, item.render .readable .unlimited = .ok text →
      '\n' ∉ text.toList) {texts : List String}
    (printed : renderItems .readable .unlimited items = .ok texts) :
    ∀ text ∈ texts, '\n' ∉ text.toList := by
  induction items generalizing texts with
  | nil =>
    rw [renderItems] at printed
    cases printed
    simp
  | cons item rest ih =>
    obtain ⟨first, others⟩ := List.forall_mem_cons.1 each
    rw [renderItems] at printed
    cases rendered : item.render .readable .unlimited with
    | error failure =>
      rw [rendered] at printed
      cases printed
    | ok text =>
      cases rendered' : renderItems .readable .unlimited rest with
      | error failure =>
        rw [rendered, rendered'] at printed
        cases printed
      | ok texts =>
        rw [rendered, rendered'] at printed
        cases printed
        exact List.forall_mem_cons.2 ⟨first text rendered, ih others rendered'⟩

/-- **The readable text of a legible value is one line.** -/
theorem newline_not_mem_render {value : Value} (legible : ∀ leaf ∈ value.leaves, leaf.IsLegible)
    {text : String} (printed : value.render .readable .unlimited = .ok text) :
    '\n' ∉ text.toList := by
  induction value using induction generalizing text with
  | leaf value isLeaf =>
    rw [leaves_of_isLeaf isLeaf] at legible
    exact newline_not_mem_leaf (legible value (List.mem_singleton_self value)) printed
  | list items ih =>
    rw [render, Room.enter?] at printed
    cases rendered : renderItems .readable .unlimited items with
    | error failure =>
      simp only [rendered] at printed
      cases printed
    | ok texts =>
      simp only [rendered] at printed
      cases printed
      have legible_item : ∀ item ∈ items, ∀ leaf ∈ item.leaves, leaf.IsLegible :=
        fun item inside leaf member => legible leaf (mem_leaves_list.2 ⟨item, inside, member⟩)
      have each := newline_not_mem_renderItems
        (fun item inside _ => ih item inside (legible_item item inside)) rendered
      have line := newline_not_mem_intercalate each
      simp only [String.toList_append, List.mem_append, not_or]
      exact ⟨⟨by decide, line⟩, by decide⟩

end Value

/-! ## Lines that spell forms -/

/-- Whether a text spells forms and keeps its tokens apart from whatever stands behind it. -/
def SpellsApart (text : List Char) (forms : List Value) : Prop :=
  ∃ tokens, Spells tokens forms ∧ ∀ after, tokensOf (text ++ after) = tokens ++ tokensOf after

namespace SpellsApart

theorem nothing : SpellsApart [] [] :=
  ⟨[], .nothing, fun _ => rfl⟩

theorem append {text text' : List Char} {forms forms' : List Value}
    (first : SpellsApart text forms) (second : SpellsApart text' forms') :
    SpellsApart (text ++ text') (forms ++ forms') := by
  obtain ⟨tokens, spells, apart⟩ := first
  obtain ⟨tokens', spells', apart'⟩ := second
  refine ⟨tokens ++ tokens', spells.append spells', fun after => ?_⟩
  rw [List.append_assoc, apart, apart', List.append_assoc]

/-- **A text that spells forms is read as these forms.** -/
theorem readSource_eq {text : String} {forms : List Value}
    (spells : SpellsApart text.toList forms) : readSource .unlimited text = ⟨forms, none, []⟩ := by
  obtain ⟨tokens, spells, apart⟩ := spells
  have alone := apart []
  rw [List.append_nil, tokensOf_nil, List.append_nil] at alone
  rw [readSource, tokenize_eq, alone, spells.readAll_eq]

end SpellsApart

/-- The tokens between the parentheses of a list spell its items. -/
theorem Spells.of_list {inside : List String} {items : List Value}
    (spells : Spells ("(" :: (inside ++ [")"])) [.list items]) : Spells inside items := by
  generalize same : "(" :: (inside ++ [")"]) = tokens at spells
  generalize one : [Value.list items] = forms at spells
  cases spells with
  | nothing => cases one
  | atom notOpen _ _ _ => exact absurd (List.cons.inj same).1.symm notOpen
  | list spelled further =>
    cases one
    cases further
    obtain rfl := List.append_cancel_right (List.cons.inj same).2
    exact spelled

/-- Texts that read as values, with spaces between them, are a line that spells the values. -/
theorem ReadsAs.spellsApart_line {texts : List (List Char)} {values : List Value}
    (items : List.Forall₂ ReadsAs texts values) :
    SpellsApart ([' '].intercalate texts ++ ['\n']) values := by
  obtain ⟨tokens, splits, reads⟩ := ReadsAs.items items
  -- Between parentheses the tokens are read as the list of the values, so they spell the values.
  have list : readNested .unlimited ("(" :: (tokens ++ [")"])) = ⟨.ok (.list values), []⟩ := by
    rw [readNested, readForm, readInto_open _ _ rfl, reads, readInto_close, readOn]
    simp
  have one : readAll .unlimited ("(" :: (tokens ++ [")"])) = ⟨[.list values], none, []⟩ := by
    rw [readAll, readAllOnto_of_ok list, readAllOnto_nil]
    rfl
  refine ⟨tokens, (spells_iff.1 ⟨by rw [one], by rw [one]⟩).of_list, fun after => ?_⟩
  rw [List.append_assoc, List.singleton_append, splits _ (by simp; decide),
    tokensOf_separator (by decide)]

/-! ## Printing -/

/-- Values all of whose leaves come back from their printed form. -/
def AllFaithful (values : List Value) : Prop :=
  ∀ value ∈ values, ∀ leaf ∈ value.leaves, leaf.IsFaithful

/-- **Faithful arguments are printed as one line, which spells values equal to them.** -/
theorem exists_line {arguments : List Value} (faithful : AllFaithful arguments) :
    ∃ text backs, '\n' ∉ text.toList ∧ Builtin.line .unlimited arguments = .ok (text ++ "\n") ∧
      SpellsApart (text ++ "\n").toList backs ∧ List.Forall₂ Value.Equal arguments backs := by
  have legible : ∀ argument ∈ arguments, ∀ leaf ∈ argument.leaves, leaf.IsLegible :=
    fun argument inside leaf member => (faithful argument inside leaf member).isLegible
  obtain ⟨texts, backs, printed, reads, same⟩ := Value.exists_readsAs_items fun argument inside =>
    Value.exists_readsAs_of_legible (legible argument inside)
  have each := Value.newline_not_mem_renderItems
    (fun argument inside _ => Value.newline_not_mem_render (legible argument inside)) printed
  refine ⟨" ".intercalate texts, backs, newline_not_mem_intercalate each, ?_, ?_, same.2 faithful⟩
  · rw [Builtin.line, printed]
    rfl
  · rw [String.toList_append, String.toList_intercalate]
    exact ReadsAs.spellsApart_line reads

/-- Items one of which cannot be rendered cannot be rendered all. -/
theorem Value.renderItems_fails {style : Style} {room : Room} {items : List Value} {item : Value}
    (inside : item ∈ items) {failure : Failure} (fails : item.render style room = .error failure) :
    ∃ other ∈ items, ∃ failure, other.render style room = .error failure ∧
      renderItems style room items = .error failure := by
  induction items with
  | nil => cases inside
  | cons first rest ih =>
    rw [renderItems]
    cases rendered : first.render style room with
    | error failure => exact ⟨first, List.mem_cons_self, failure, rendered, rfl⟩
    | ok text =>
      rcases List.mem_cons.1 inside with rfl | inside
      · rw [rendered] at fails
        cases fails
      · obtain ⟨other, member, failure, fails, all⟩ := ih inside
        refine ⟨other, List.mem_cons_of_mem first member, failure, fails, ?_⟩
        rw [all]
        rfl

section Calls

variable (files : FileTree) (evaluator : Evaluator) (room : Room) (root : FrameId)

theorem Builtin.call_printLine {arguments : List Value} {text : String}
    (printed : line room arguments = .ok text) (world : World) :
    Builtin.printLine.call files evaluator room root arguments world =
      .finished .nil { world with output := world.output ++ text } := by
  rw [Builtin.call, printed]
  rfl

theorem Builtin.call_printLine_of_fails {arguments : List Value} {failure : Failure}
    (fails : line room arguments = .error failure) (world : World) :
    Builtin.printLine.call files evaluator room root arguments world = .failed failure world := by
  rw [Builtin.call, fails]
  rfl

end Calls

/-- How a world comes about by printing lines, one for each list of arguments: by calls of the
operation that prints them, with anything in between that writes nothing. -/
inductive Prints (start : World) : List (List Value) → World → Prop where
  | nothing : Prints start [] start
  | aside {calls : List (List Value)} {before after : World} : Prints start calls before →
      after.output = before.output → Prints start calls after
  | line {calls : List (List Value)} {before after : World} {arguments : List Value}
      {files : FileTree} {evaluator : Evaluator} {root : FrameId} {value : Value} :
      Prints start calls before →
        Builtin.printLine.call files evaluator .unlimited root arguments before =
          .finished value after →
          Prints start (calls ++ [arguments]) after

/-- **What is printed spells, line by line, values equal to the arguments of all calls.** -/
theorem Prints.exists_printed {start after : World} {calls : List (List Value)}
    (prints : Prints start calls after) (faithful : ∀ arguments ∈ calls, AllFaithful arguments) :
    ∃ printed backs, after.output = start.output ++ printed ∧ SpellsApart printed.toList backs ∧
      List.Forall₂ Value.Equal calls.flatten backs := by
  induction prints with
  | nothing => exact ⟨"", [], by simp, .nothing, .nil⟩
  | aside _ silent ih =>
    rw [silent]
    exact ih faithful
  | @line calls before after arguments files evaluator root value _ called ih =>
    obtain ⟨printed, backs, output, spells, same⟩ := ih fun arguments member =>
      faithful arguments (List.mem_append_left _ member)
    obtain ⟨text, backs', _, line, spells', same'⟩ := exists_line (faithful arguments (by simp))
    rw [Builtin.call_printLine files evaluator .unlimited root line] at called
    cases called
    refine ⟨printed ++ (text ++ "\n"), backs ++ backs', ?_, ?_, ?_⟩
    · dsimp only
      rw [output, String.append_assoc]
    · rw [String.toList_append]
      exact spells.append spells'
    · rw [List.flatten_append, List.flatten_singleton]
      exact List.rel_append same same'

/-- **Printing writes one line, which reads as the arguments when all their leaves come back from
their printed form: as many forms, each equal to its argument.  All that is printed by calls in a
row reads as the arguments of all of them in order.  And a call with an argument that cannot be
rendered fails as one of its arguments does and writes nothing.** -/
theorem printed_lines_read_back (files : FileTree) (evaluator : Evaluator) (root : FrameId) :
    (∀ arguments, AllFaithful arguments → ∀ world, ∃ text backs, '\n' ∉ text.toList ∧
      Builtin.printLine.call files evaluator .unlimited root arguments world =
        .finished .nil { world with output := world.output ++ (text ++ "\n") } ∧
      readSource .unlimited (text ++ "\n") = ⟨backs, none, []⟩ ∧
      List.Forall₂ Value.Equal arguments backs) ∧
    (∀ start calls after, Prints start calls after →
      (∀ arguments ∈ calls, AllFaithful arguments) →
        ∃ printed backs, after.output = start.output ++ printed ∧
          readSource .unlimited printed = ⟨backs, none, []⟩ ∧
          List.Forall₂ Value.Equal calls.flatten backs) ∧
    ∀ room arguments argument failure, argument ∈ arguments →
      argument.render .readable room = .error failure →
        ∃ other ∈ arguments, ∃ failure, other.render .readable room = .error failure ∧
          ∀ world, Builtin.printLine.call files evaluator room root arguments world =
            .failed failure world := by
  refine ⟨?_, ?_, ?_⟩
  · intro arguments faithful world
    obtain ⟨text, backs, oneLine, line, spells, same⟩ := exists_line faithful
    exact ⟨text, backs, oneLine, Builtin.call_printLine files evaluator .unlimited root line world,
      spells.readSource_eq, same⟩
  · intro start calls after prints faithful
    obtain ⟨printed, backs, output, spells, same⟩ := prints.exists_printed faithful
    exact ⟨printed, backs, output, spells.readSource_eq, same⟩
  · intro room arguments argument failure inside fails
    obtain ⟨other, member, failure, fails, all⟩ := Value.renderItems_fails inside fails
    have line : Builtin.line room arguments = .error failure := by
      rw [Builtin.line, all]
      rfl
    exact ⟨other, member, failure, fails,
      Builtin.call_printLine_of_fails files evaluator room root line⟩

/-- A string with a line break, a quote and the beginnings of a comment and a list, and a list
with a symbol, are printed twice; a foreign value between them is not. -/
theorem printed_text_with_line_break :
    let text : Value := .string "a\n;(\""
    let items : Value := .list [.symbol "x", .nil]
    let print := Builtin.printLine.call .empty (evaluate .empty 0) .unlimited 0
    (∃ failure, ∀ world, print [text, .foreign "f", items] world = .failed failure world) ∧
      ∃ first second printed backs,
        print [text, items] World.initial = .finished .nil first ∧
        print [items] first = .finished .nil second ∧
        second.output = World.initial.output ++ printed ∧
        readSource .unlimited printed = ⟨backs, none, []⟩ ∧
        List.Forall₂ Value.Equal [text, items, items] backs := by
  intro text items print
  obtain ⟨prints, read_back, fails⟩ := printed_lines_read_back .empty (evaluate .empty 0) 0
  have readable : IsReadableName "x" :=
    ⟨(tokenize_eq_self_iff "x").2 (Lexeme.isToken_atom (by decide) (by decide)), by decide,
      by decide, by decide, by decide, by decide, by decide, by decide⟩
  have faithful_items : ∀ leaf ∈ items.leaves, leaf.IsFaithful := by
    simp [items, Value.leaves, Value.leavesOfItems, Value.IsFaithful, readable]
  have faithful_text : ∀ leaf ∈ text.leaves, leaf.IsFaithful := by
    simp [text, Value.leaves, Value.IsFaithful]
  have one : AllFaithful [items] := List.forall_mem_singleton.2 faithful_items
  have two : AllFaithful [text, items] := List.forall_mem_cons.2 ⟨faithful_text, one⟩
  obtain ⟨_, _, _, first, _⟩ := prints [text, items] two World.initial
  obtain ⟨_, _, _, second, _⟩ := prints [items] one _
  obtain ⟨printed, backs, output, read, same⟩ := read_back World.initial _ _
    (.line (.line .nothing first) second) (by simp [two, one])
  obtain ⟨_, _, failure, _, rejected⟩ := fails .unlimited [text, .foreign "f", items] (.foreign "f")
    (.error (.notRenderable "f")) (by simp) rfl
  exact ⟨⟨failure, rejected⟩, _, _, printed, backs, first, second, output, read, same⟩

end Lisp
