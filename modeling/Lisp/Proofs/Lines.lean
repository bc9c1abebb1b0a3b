import Mathlib
import Lisp.Proofs.Continuation
import Lisp.Proofs.Direct

/-!
# Source texts line by line

A line break ends every token but a string literal that is left open.  So the tokens of
several lines are those of the first and those of the others just when the first line leaves
no literal open (`tokenize_newline_iff`).

A text that can be read leaves none open.  In any room its forms come first when more lines
follow, and what these lines are is all the same to it (`readProgram_newline`).  So evaluating
a text and then a second one is evaluating both as one, as long as the second can be read too;
otherwise nothing is evaluated, neither of the second text nor of the first
(`evaluate_newline`).
-/

set_option autoImplicit false

namespace Lisp

/-! ## Tokens -/

/-- A literal left open takes in the line break behind it. -/
theorem tokensOf_open_newline {body : List Char}
    (opened : closesAtEnd (Lexeme.literalBody body).1 = false) :
    tokensOf ('"' :: (body ++ ['\n'])) ≠ tokensOf ('"' :: body) := by
  intro same
  obtain ⟨taken, _⟩ := @Lexeme.literalBody_append_of_open body ['\n'] (by simp) (by simp) opened
  rw [tokensOf_cons, tokensOf_cons, Lexeme.first_literal, Lexeme.first_literal, taken] at same
  have first := congrArg String.toList (List.cons.inj same).1
  rw [String.toList_ofList, String.toList_ofList] at first
  -- The literal is no longer than the text, and the one with the line break is.
  have whole : (Lexeme.literalBody body).1 ++ (Lexeme.literalBody body).2 = body :=
    Lexeme.literalOnto_text [] body
  have lengths := congrArg List.length whole
  have longer := congrArg List.length first
  simp only [List.length_append, List.length_cons, List.length_nil] at lengths longer
  omega

/-- **The tokens of several lines are those of the first and those of the others, whatever the
others are, just when every token of the first that starts with a quote is a literal.** -/
theorem tokenize_newline_iff (first : String) :
    (∀ token ∈ tokenize first, token.toList.head? = some '"' → IsLiteral token.toList) ↔
      ∀ second, tokenize (first ++ "\n" ++ second) = tokenize first ++ tokenize second := by
  simp only [tokenize_eq, toList_append_newline]
  constructor
  · intro literals second
    refine tokensOf_newline (fun token member quoted => ?_) second.toList
    exact (isCompleteLiteral_iff _).2 (literals token member quoted)
  · intro splits token member quoted
    rcases closed_or_open first.toList with closed | ⟨before, body, _, opened, goes_on⟩
    · exact (isCompleteLiteral_iff _).1 (closed token member quoted)
    · -- An empty second line would change the last token of the first one.
      have longer := splits ""
      have alone := goes_on []
      rw [List.append_nil, List.append_nil] at alone
      rw [String.toList_empty, tokensOf_nil, List.append_nil, goes_on, alone] at longer
      exact absurd (List.append_cancel_left longer) (tokensOf_open_newline opened)

/-! ## Reading -/

theorem readProgram_eq_ok_iff {room : Room} {source : String} {forms : List Value} :
    readProgram room source = .ok forms ↔
      (readSource room source).failure? = none ∧ (readSource room source).forms = forms := by
  unfold readProgram
  dsimp only
  split
  · next complete => simp [complete]
  · next fails => simp [fails]

/-- The tokens of a text that can be read are closed. -/
theorem isClosed_of_readProgram {room : Room} {source : String} {forms : List Value}
    (readable : readProgram room source = .ok forms) :
    ∀ token ∈ tokensOf source.toList, IsClosed token.toList := by
  have atMost : room.AtMost .unlimited := by cases room <;> trivial
  obtain ⟨complete, same⟩ := readProgram_eq_ok_iff.1 (readProgram_of_atMost atMost readable)
  exact (spells_iff.1 ⟨same, complete⟩).inOrder.1.isClosed

/-- **A text that can be read is read first when further lines follow it, and then they are
read by themselves.** -/
theorem readProgram_newline {room : Room} {first : String} {forms : List Value}
    (readable : readProgram room first = .ok forms) (second : String) :
    readProgram room (first ++ "\n" ++ second) = (forms ++ ·) <$> readProgram room second := by
  obtain ⟨complete, rfl⟩ := readProgram_eq_ok_iff.1 readable
  have split : readSource room (first ++ "\n" ++ second) =
      ⟨(readSource room first).forms ++ (readSource room second).forms,
        (readSource room second).failure?, (readSource room second).rest⟩ := by
    rw [readSource, tokenize_eq, toList_append_newline,
      tokensOf_newline (isClosed_of_readProgram readable)]
    exact readAll_append complete _
  simp only [readProgram, split]
  cases (readSource room second).failure? with
  | none => rfl
  | some failure => rfl

/-! ## Evaluating -/

theorem Host.evaluateForms_append (host : Host) (frame : FrameId) (last : Value)
    (forms further : List Value) :
    host.evaluateForms frame last (forms ++ further) =
      host.evaluateForms frame last forms >>= fun value =>
        host.evaluateForms frame value further := by
  induction forms generalizing last with
  | nil => rfl
  | cons form rest ih => simp only [List.cons_append, evaluateForms, ih, bind_assoc]

/-- What was the last value before is all the same as soon as there is a form. -/
theorem Host.evaluateForms_of_ne_nil (host : Host) (frame : FrameId) {forms : List Value}
    (nonempty : forms ≠ []) (last last' : Value) :
    host.evaluateForms frame last forms = host.evaluateForms frame last' forms := by
  cases forms with
  | nil => exact absurd rfl nonempty
  | cons form rest => rfl

theorem Interpreter.evaluate_of_readable (interpreter : Interpreter) {host : Host} {text : String}
    {forms : List Value} (readable : readProgram host.room text = .ok forms) :
    interpreter.evaluate host text = host.evaluateForms interpreter.root .nil forms := by
  rw [evaluate, Host.evaluateSource, readable]
  exact pure_bind forms _

/-- **A source text that cannot be read is rejected and leaves everything as it is.** -/
theorem Interpreter.evaluate_of_unreadable (interpreter : Interpreter) {host : Host} {text : String}
    {failure : Failure} (unreadable : readProgram host.room text = .error failure) (world : World) :
    interpreter.evaluate host text world = .failed failure world := by
  rw [evaluate, Host.evaluateSource, unreadable]
  rfl

/-- **A text that can be read and a second one are evaluated together as one after the other, if
the second can be read too: the second is evaluated when the first is finished, and the value
is that of the second unless it has no forms.  A second text that cannot be read fails as it
does alone, and then nothing of the first is evaluated either.** -/
theorem evaluate_newline (interpreter : Interpreter) (host : Host) {first : String}
    {forms : List Value} (readable : readProgram host.room first = .ok forms) (second : String) :
    (∀ further, readProgram host.room second = .ok further →
      interpreter.evaluate host (first ++ "\n" ++ second) = do
        let before ← interpreter.evaluate host first
        let last ← interpreter.evaluate host second
        return if further.isEmpty then before else last) ∧
    ∀ failure, readProgram host.room second = .error failure → ∀ world,
      interpreter.evaluate host (first ++ "\n" ++ second) world = .failed failure world := by
  have together := readProgram_newline readable second
  refine ⟨fun further readable' => ?_, fun failure unreadable world => ?_⟩
  · rw [readable'] at together
    rw [interpreter.evaluate_of_readable together, interpreter.evaluate_of_readable readable,
      interpreter.evaluate_of_readable readable', Host.evaluateForms_append]
    congr 1
    funext before
    cases further with
    | nil => rfl
    | cons form rest =>
      rw [Host.evaluateForms_of_ne_nil host _ (List.cons_ne_nil form rest) before .nil]
      exact (bind_pure _).symm
  · rw [unreadable] at together
    exact interpreter.evaluate_of_unreadable together world

/-- A definition with a second line, and the same definition before a line that closes a list
too many. -/
theorem evaluate_newline_cases :
    let host : Host := ⟨.empty, 2, .unlimited⟩
    let start : World := { World.initial with heap := Heap.empty.push none }
    Interpreter.evaluate ⟨0⟩ host ("(def! a nil)" ++ "\n" ++ "()") start =
        .finished (.list []) { start with heap := start.heap.define 0 "a" .nil } ∧
      Interpreter.evaluate ⟨0⟩ host ("(def! a nil)" ++ "\n" ++ "())") start =
        .failed (.error .unexpectedClose) start := by
  intro host start
  have first : readProgram .unlimited "(def! a nil)" =
      .ok [.list [.symbol "def!", .symbol "a", .nil]] := by cbv
  have second : readProgram .unlimited "()" = .ok [.list []] := by cbv
  have stray : readProgram .unlimited "())" = .error (.error .unexpectedClose) := by cbv
  have evaluated := @evaluate_newline ⟨0⟩ host _ _ first
  refine ⟨?_, (evaluated "())").2 _ stray start⟩
  rw [(evaluated "()").1 _ second, Interpreter.evaluate_of_readable _ first,
    Interpreter.evaluate_of_readable _ second]
  rfl

end Lisp
