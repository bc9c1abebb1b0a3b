import Lisp.Proofs.Scanning

/-!
# Escapes follow the items of a literal

What stands between the quotes of a literal is looked at twice, in two ways.  The lexer pairs
every backslash with the character behind it, whatever that is, so the text falls into items:
such pairs, and characters that are neither backslashes nor quotes (`HasItems`).  Decoding
knows three pairs only.  It looks for them from left to right, and where it finds none it
passes over one character, also over a backslash (`escape`, `unescape_eq_pieces`).

A pair that decoding finds might begin in one item and end in the next.  It never does
(`pieces_items`): a pair that is found is an item, and an item that is no such pair is passed
over to its end, because its second character is no backslash then.  So a literal is decoded
item by item (`unescape_item_by_item`).
-/

set_option autoImplicit false

namespace Lisp

/-! ## Items -/

/-- Whether a text falls into these items of a literal. -/
def HasItems (body : List Char) (items : List (List Char)) : Prop :=
  (∀ item ∈ items, IsLiteralItem item) ∧ body = items.flatten

/-- The pattern of an item cuts one item off. -/
theorem mem_cuts_literalItem_iff {text : List Char} {cut : Pattern.Cut} :
    cut ∈ LexemeGroup.literalItem.cuts text ↔
      IsLiteralItem cut.taken ∧ text = cut.taken ++ cut.left := by
  constructor
  · intro member
    cases text with
    | nil => simp [LexemeGroup.literalItem, Pattern.cuts] at member
    | cons c rest =>
      by_cases backslash : c = '\\'
      · subst backslash
        cases rest with
        | nil => simp [LexemeGroup.literalItem, Pattern.cuts] at member
        | cons d rest =>
          obtain rfl : cut = ⟨['\\', d], rest⟩ := by
            simpa [LexemeGroup.literalItem, Pattern.cuts, Pattern.Cut.join] using member
          exact ⟨.pair d, rfl⟩
      by_cases quote : c = '"'
      · subst quote
        simp [LexemeGroup.literalItem, Pattern.cuts] at member
      · obtain rfl : cut = ⟨[c], rest⟩ := by
          simpa [LexemeGroup.literalItem, Pattern.cuts, backslash, quote] using member
        exact ⟨.plain quote backslash, rfl⟩
  · obtain ⟨taken, left⟩ := cut
    rintro ⟨isItem, rfl⟩
    cases isItem with
    | pair c => simp [LexemeGroup.literalItem, Pattern.cuts, Pattern.Cut.join]
    | plain noQuote noBackslash =>
      simp [LexemeGroup.literalItem, Pattern.cuts, noQuote, noBackslash]

/-- Items in a row are one of the ways in which the pattern of an item can be repeated. -/
theorem mem_cuts_items {items : List (List Char)} (each : ∀ item ∈ items, IsLiteralItem item)
    (left : List Char) :
    ⟨items.flatten, left⟩ ∈ (Pattern.many LexemeGroup.literalItem).cuts (items.flatten ++ left) := by
  induction items with
  | nil => exact Pattern.mem_cuts_many_iff.2 (.inr rfl)
  | cons item items ih =>
    obtain ⟨isItem, others⟩ := List.forall_mem_cons.1 each
    have nonempty : 0 < item.length := by cases isItem <;> simp
    refine Pattern.mem_cuts_many_iff.2 (.inl ⟨⟨item, items.flatten ++ left⟩, ?_, ?_, _, ih others, ?_⟩)
    · exact mem_cuts_literalItem_iff.2 ⟨isItem, by simp⟩
    · simp only [List.flatten_cons, List.append_assoc, List.length_append]
      omega
    · rfl

/-- Every way in which the pattern of an item can be repeated takes items. -/
theorem exists_items_of_mem_cuts {text : List Char} {cut : Pattern.Cut}
    (member : cut ∈ (Pattern.many LexemeGroup.literalItem).cuts text) :
    ∃ items, HasItems cut.taken items ∧ text = cut.taken ++ cut.left := by
  induction size : text.length using Nat.strongRecOn generalizing text cut with
  | ind size ih =>
    rcases Pattern.mem_cuts_many_iff.1 member with ⟨begun, first, shorter, next, further, rfl⟩ | rfl
    · obtain ⟨isItem, text_eq⟩ := mem_cuts_literalItem_iff.1 first
      obtain ⟨items, ⟨each, taken⟩, left⟩ := ih _ (size ▸ shorter) further rfl
      refine ⟨begun.taken :: items, ⟨List.forall_mem_cons.2 ⟨isItem, each⟩, ?_⟩, ?_⟩
      · rw [Pattern.Cut.join, List.flatten_cons, taken]
      · rw [Pattern.Cut.join, text_eq, left, List.append_assoc]
    · exact ⟨[], ⟨by simp, rfl⟩, rfl⟩

/-- **The pattern of what stands in a literal accepts the texts that fall into items.** -/
theorem accepts_items_iff (body : List Char) :
    (Pattern.many LexemeGroup.literalItem).Accepts body ↔ ∃ items, HasItems body items := by
  constructor
  · intro accepted
    obtain ⟨items, has, _⟩ := exists_items_of_mem_cuts accepted
    exact ⟨items, has⟩
  · rintro ⟨items, each, rfl⟩
    have member := mem_cuts_items each []
    rwa [List.append_nil] at member

/-- An item ends where it does, whatever comes behind it. -/
theorem IsLiteralItem.append_inj {item other rest rest' : List Char} (isItem : IsLiteralItem item)
    (isItem' : IsLiteralItem other) (same : item ++ rest = other ++ rest') :
    item = other ∧ rest = rest' := by
  cases isItem with
  | pair c =>
    cases isItem' with
    | pair d => simpa using same
    | plain _ noBackslash => exact absurd (List.cons.inj same).1.symm noBackslash
  | plain _ noBackslash =>
    cases isItem' with
    | pair d => exact absurd (List.cons.inj same).1 noBackslash
    | plain _ _ => simpa using same

/-- **A text falls into items in one way only.** -/
theorem HasItems.unique {body : List Char} {items others : List (List Char)}
    (has : HasItems body items) (has' : HasItems body others) : others = items := by
  obtain ⟨each, rfl⟩ := has
  obtain ⟨each', same⟩ := has'
  induction items generalizing others with
  | nil =>
    cases others with
    | nil => rfl
    | cons other others =>
      cases (List.forall_mem_cons.1 each').1 <;> simp at same
  | cons item items ih =>
    cases others with
    | nil => cases (List.forall_mem_cons.1 each).1 <;> simp at same
    | cons other others =>
      obtain ⟨isItem, further⟩ := List.forall_mem_cons.1 each
      obtain ⟨isItem', further'⟩ := List.forall_mem_cons.1 each'
      obtain ⟨rfl, rest⟩ := isItem.append_inj isItem' same
      rw [ih further further' rest]

/-! ## Escapes -/

namespace Text

/-- The characters that stand for something behind a backslash, and what that is. -/
def escaped? : Char → Option Char
  | '\\' => some '\\'
  | 'n' => some '\n'
  | '"' => some '"'
  | _ => none

/-- The pairs that decoding looks for. -/
def escapePair : Pattern :=
  .both (.one (· == '\\')) (.one fun c => (escaped? c).isSome)

/-- What an item of a literal stands for: one of the three pairs for one character, and
any other item for itself. -/
def decodeItem : List Char → List Char
  | ['\\', c] =>
    match escaped? c with
    | some d => [d]
    | none => ['\\', c]
  | item => item

/-- What a piece stands for. -/
def decodePiece : Pattern.Piece → List Char
  | .found pair => decodeItem pair
  | .passed c => [c]

/-- What is met in an item when escapes are looked for: the item as a whole if it is one,
and else its characters. -/
def itemPieces : List Char → List Pattern.Piece
  | ['\\', c] =>
    if (escaped? c).isSome then [.found ['\\', c]] else [.passed '\\', .passed c]
  | item => item.map .passed

section Pairs

variable {c d : Char} (rest : List Char)

theorem takes_escapePair (known : escaped? c = some d) :
    escapePair.Takes ('\\' :: c :: rest) ['\\', c] rest := by
  have second : (escaped? c).isSome = true := by rw [known]; rfl
  exact .both (.one rfl _) (.one second rest)

theorem cuts_escapePair_of_unknown (unknown : escaped? c = none) :
    escapePair.cuts ('\\' :: c :: rest) = [] := by
  rw [escapePair, Pattern.cuts_both_one _ _ rfl, Pattern.cuts_one_of_not rest (by rw [unknown]; rfl)]
  rfl

theorem cuts_escapePair_of_plain (plain : c ≠ '\\') : escapePair.cuts (c :: rest) = [] :=
  Pattern.cuts_both_one_of_not rest _ (by simpa using plain)

theorem unescape_pair (known : escaped? c = some d) :
    unescape ('\\' :: c :: rest) = d :: unescape rest := by
  unfold escaped? at known
  split at known
  · cases known
    exact unescape_backslash rest
  · cases known
    exact unescape_newline rest
  · cases known
    exact unescape_quote rest
  · cases known

theorem unescape_of_unknown (unknown : escaped? c = none) :
    unescape ('\\' :: c :: rest) = '\\' :: unescape (c :: rest) := by
  have other : ∀ e, escaped? e ≠ none → c ≠ e := by
    rintro e known rfl
    exact known unknown
  rw [unescape, unescapeOnto.eq_4]
  · exact unescapeOnto_eq ['\\'] (c :: rest)
  · rintro further - same
    exact other '\\' (by decide) (List.cons.inj same).1
  · rintro further - same
    exact other 'n' (by decide) (List.cons.inj same).1
  · rintro further - same
    exact other '"' (by decide) (List.cons.inj same).1

end Pairs

/-- Where an escape is found, it is one of the three pairs. -/
theorem exists_of_head?_cuts {text : List Char} {cut : Pattern.Cut}
    (matched : (escapePair.cuts text).head? = some cut) :
    ∃ c d, escaped? c = some d ∧ cut.taken = ['\\', c] ∧ text = '\\' :: c :: cut.left := by
  cases text with
  | nil => cases matched
  | cons first rest =>
    by_cases backslash : first = '\\'
    · subst backslash
      cases rest with
      | nil => cases matched
      | cons c rest =>
        cases known : escaped? c with
        | none =>
          rw [cuts_escapePair_of_unknown rest known] at matched
          cases matched
        | some d =>
          rw [takes_escapePair rest known] at matched
          cases matched
          exact ⟨c, d, known, rfl, rfl⟩
    · rw [cuts_escapePair_of_plain rest backslash] at matched
      cases matched

/-- Where no escape is found, a character stands for itself. -/
theorem unescape_of_no_match {c : Char} {rest : List Char}
    (unmatched : (escapePair.cuts (c :: rest)).head? = none) :
    unescape (c :: rest) = c :: unescape rest := by
  by_cases backslash : c = '\\'
  · subst backslash
    cases rest with
    | nil => rfl
    | cons d rest =>
      cases known : escaped? d with
      | none => exact unescape_of_unknown rest known
      | some e =>
        rw [takes_escapePair rest known] at unmatched
        cases unmatched
  · exact unescape_cons rest backslash

/-- **Decoding looks for the three pairs from left to right**, puts for each what it stands
for, and leaves all else as it is. -/
theorem unescape_eq_pieces (text : List Char) :
    unescape text = (escapePair.pieces text).flatMap decodePiece := by
  fun_induction escapePair.pieces text with
  | case1 => simp
  | case2 c rest unmatched ih =>
    rw [unescape_of_no_match unmatched, ih, List.flatMap_cons]
    rfl
  | case3 c rest cut matched shorter ih =>
    obtain ⟨d, e, known, taken, text⟩ := exists_of_head?_cuts matched
    rw [text, unescape_pair _ known, ih, List.flatMap_cons, taken, decodePiece, decodeItem, known]
    rfl
  | case4 c rest cut matched long ih =>
    obtain ⟨d, e, known, taken, text⟩ := exists_of_head?_cuts matched
    rw [text] at long
    exact absurd (Nat.lt_succ_of_lt (Nat.lt_succ_self _)) long

/-! ## Item by item -/

/-- **Escapes are looked for in each item by itself**, whatever stands behind it. -/
theorem pieces_item {item : List Char} (isItem : IsLiteralItem item) (rest : List Char) :
    escapePair.pieces (item ++ rest) = itemPieces item ++ escapePair.pieces rest := by
  cases isItem with
  | pair c =>
    cases known : escaped? c with
    | some d =>
      rw [itemPieces, if_pos (by rw [known]; rfl)]
      exact Pattern.pieces_of_takes (takes_escapePair rest known)
        (Nat.lt_succ_of_lt (Nat.lt_succ_self _))
    | none =>
      have plain : c ≠ '\\' := by
        rintro rfl
        cases known
      rw [itemPieces, if_neg (by rw [known]; decide)]
      show escapePair.pieces ('\\' :: c :: rest) = _
      rw [Pattern.pieces_of_no_match (cuts_escapePair_of_unknown rest known),
        Pattern.pieces_of_no_match (cuts_escapePair_of_plain rest plain)]
      rfl
  | @plain c noQuote noBackslash =>
    have one : itemPieces [c] = [.passed c] := by simp [itemPieces]
    rw [one]
    exact Pattern.pieces_of_no_match (cuts_escapePair_of_plain rest noBackslash)

theorem pieces_items {items : List (List Char)} (each : ∀ item ∈ items, IsLiteralItem item) :
    escapePair.pieces items.flatten = items.flatMap itemPieces := by
  induction items with
  | nil => exact Pattern.pieces_nil
  | cons item items ih =>
    obtain ⟨isItem, others⟩ := List.forall_mem_cons.1 each
    rw [List.flatten_cons, pieces_item isItem, ih others, List.flatMap_cons]

/-- An item stands for what its pieces stand for. -/
theorem flatMap_itemPieces {item : List Char} (isItem : IsLiteralItem item) :
    (itemPieces item).flatMap decodePiece = decodeItem item := by
  cases isItem with
  | pair c =>
    rw [itemPieces]
    split
    · simp [decodePiece]
    · next unknown =>
      rw [Option.not_isSome_iff_eq_none] at unknown
      simp [decodePiece, decodeItem, unknown]
  | plain => simp [itemPieces, decodePiece, decodeItem]

end Text

/-- **A literal is decoded item by item.**  What may stand in it are the texts that fall into
items.  They do so in one way only, and the escapes that decoding finds in such a text are the
items that are one of the three pairs: what it stands for is what its items stand for, one
after the other, and it is the string that the literal is read as. -/
theorem unescape_item_by_item (body : List Char) :
    ((Pattern.many LexemeGroup.literalItem).Accepts body ↔ ∃ items, HasItems body items) ∧
    ∀ items, HasItems body items →
      (∀ others, HasItems body others → others = items) ∧
      Text.escapePair.pieces body = items.flatMap Text.itemPieces ∧
      Text.unescape body = items.flatMap Text.decodeItem ∧
      Value.ofAtom (String.ofList ('"' :: (body ++ ['"']))) =
        .ok (.string (String.ofList (items.flatMap Text.decodeItem))) := by
  refine ⟨accepts_items_iff body, fun items has => ?_⟩
  obtain ⟨each, body_eq⟩ := has
  have pieces : Text.escapePair.pieces body = items.flatMap Text.itemPieces := by
    rw [body_eq, Text.pieces_items each]
  have decoded : Text.unescape body = items.flatMap Text.decodeItem := by
    rw [Text.unescape_eq_pieces, pieces, List.flatMap_assoc]
    exact List.flatMap_congr fun item member => Text.flatMap_itemPieces (each item member)
  have closes : closesAtEnd (body ++ ['"']) = true :=
    (closesAtEnd_iff _).2 ⟨items, each, by rw [body_eq]⟩
  refine ⟨fun others has' => HasItems.unique ⟨each, body_eq⟩ has', pieces, decoded, ?_⟩
  rw [Value.ofAtom_literal String.toList_ofList, if_pos closes, List.dropLast_concat, decoded]

/-- A pair that is kept, and then five backslashes with an `n` behind them. -/
theorem unescape_run_of_backslashes :
    let body := "\\q\\\\\\\\\\n".toList
    let items := [['\\', 'q'], ['\\', '\\'], ['\\', '\\'], ['\\', 'n']]
    HasItems body items ∧ Text.unescape body = "\\q\\\\\n".toList ∧
      Value.ofAtom "\"\\q\\\\\\\\\\n\"" = .ok (.string "\\q\\\\\n") := by
  intro body items
  have each : ∀ item ∈ items, IsLiteralItem item := by
    simp only [items, List.forall_mem_cons]
    exact ⟨.pair 'q', .pair '\\', .pair '\\', .pair 'n', nofun⟩
  have has : HasItems body items := ⟨each, by decide⟩
  obtain ⟨_, _, decoded, read⟩ := (unescape_item_by_item body).2 items has
  exact ⟨has, decoded, read⟩

end Lisp
