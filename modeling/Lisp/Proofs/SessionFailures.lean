import Lisp.Proofs.FileNameFaults
import Lisp.Proofs.OrdinarySessions

/-!
# How steps of sessions can fail

A source text that is evaluated in a session fails with an error of the language, or with the
fault of a file name, if it fails at all (`failures_in_sessions`).  Faults that ordinary values
exclude do not happen in a session, and an evaluation that runs out of room says so with an
error (`Host.evaluateSource_ne_stackExhausted`).
-/

set_option autoImplicit false

namespace Lisp

/-- Every error belongs to the widest category. -/
theorem Error.isA_any (error : Error) : error.category.isA .any = true := by
  cases error <;> rfl

namespace Host

variable (host : Host) (frame : FrameId) (world after : World)

theorem evaluateForms_ne_stackExhausted (last : Value) (forms : List Value) :
    host.evaluateForms frame last forms world ≠ .failed (.fault .stackExhausted) after := by
  induction forms generalizing last world with
  | nil =>
    intro exhausted
    cases exhausted
  | cons form rest ih =>
    intro exhausted
    rw [evaluateForms, Action.bind_apply] at exhausted
    cases evaluated : host.evaluate form frame world with
    | outOfFuel =>
      rw [evaluated] at exhausted
      cases exhausted
    | finished value between =>
      rw [evaluated] at exhausted
      exact ih between value exhausted
    | failed failure between =>
      rw [evaluated] at exhausted
      cases exhausted
      exact evaluate_ne_stackExhausted host.files host.fuel host.room form frame world _ evaluated

/-- A source text that needs too much room fails with an error. -/
theorem evaluateSource_ne_stackExhausted (source : String) :
    host.evaluateSource frame source world ≠ .failed (.fault .stackExhausted) after := by
  rw [evaluateSource]
  cases reads : readProgram host.room source with
  | ok forms => exact host.evaluateForms_ne_stackExhausted frame world after .nil forms
  | error failure =>
    obtain ⟨error, rfl, _⟩ := readProgram_fails reads
    intro exhausted
    cases exhausted

end Host

/-- **Whatever source text is evaluated in whatever state of a session, with whatever files and
room: if it fails it fails with an error, and the only fault that can be met besides is that of
a file name.**

That fault comes from nothing but reading a file whose name has a NUL character in it: if that
was an error, of whatever kind, the text would fail with this error where it meets the fault
now, and do the same in all other cases.  Then all failures would be errors. -/
theorem failures_in_sessions {host : Host} {settings : Settings} {interpreter : Interpreter}
    {before start world : World} (packaged : Prelude.isPackaged settings = true)
    (ordinary : before.IsOrdinary)
    (created : Interpreter.create host settings before = .finished interpreter start)
    (session : interpreter.Session start world) (host : Host) (source : String) :
    (∀ failure after, interpreter.evaluate host source world = .failed failure after →
      (∃ error : Error, failure = .error error ∧ error.category.isA .any = true) ∨
        failure = .fault .nulInFileName) ∧
    ∀ substitute : Error,
      (Operations.refusing substitute).evaluateSource host interpreter.root source world =
        (interpreter.evaluate host source).mapFailure (.replacingNul substitute) world ∧
      ∀ failure after,
        (Operations.refusing substitute).evaluateSource host interpreter.root source world =
            .failed failure after →
          ∃ error : Error, failure = .error error ∧ error.category.isA .any = true := by
  obtain ⟨started, there⟩ := Interpreter.isOrdinary_of_create packaged ordinary created
  obtain ⟨isOrdinary, inside⟩ := session.isOrdinary started there
  have fails : ∀ failure after, interpreter.evaluate host source world = .failed failure after →
      (∃ error : Error, failure = .error error ∧ error.category.isA .any = true) ∨
        failure = .fault .nulInFileName := by
    intro failure after failed
    obtain ⟨same, ends⟩ :=
      Interpreter.evaluate_isOrdinary isOrdinary inside Operations.agree_call host source
    rw [same, failed] at ends
    cases failure with
    | error error => exact .inl ⟨error, rfl, error.isA_any⟩
    | fault met =>
      rcases ends.1 with rfl | rfl
      · exact absurd failed (host.evaluateSource_ne_stackExhausted _ world after source)
      · exact .inr rfl
  refine ⟨fails, fun substitute => ?_⟩
  have refused :
      (Operations.refusing substitute).evaluateSource host interpreter.root source world =
        (interpreter.evaluate host source).mapFailure (.replacingNul substitute) world :=
    congrFun (Operations.evaluateSource_refusing host interpreter.root source) world
  refine ⟨refused, ?_⟩
  intro failure after failed
  rw [refused, Action.mapFailure] at failed
  cases evaluated : interpreter.evaluate host source world with
  | outOfFuel =>
    rw [evaluated] at failed
    cases failed
  | finished value last =>
    rw [evaluated] at failed
    cases failed
  | failed inner last =>
    rw [evaluated] at failed
    cases failed
    rcases fails inner _ evaluated with ⟨error, rfl, wide⟩ | rfl
    · exact ⟨error, rfl, wide⟩
    · exact ⟨substitute, rfl, substitute.isA_any⟩

/-- A new interpreter that is asked for a file with a NUL character in its name meets the
fault, and would fail with an error if such names were refused. -/
theorem failure_of_file_name :
    let host : Host := ⟨.empty, 2, .unlimited⟩
    let refused : Error := .unreadableFile "\x00" .missing
    ∃ start, Interpreter.create host ⟨none, none⟩ World.initial = .finished ⟨0⟩ start ∧
      Interpreter.evaluate ⟨0⟩ host "(slurp \"\x00\")" start =
        .failed (.fault .nulInFileName) start ∧
      (Operations.refusing refused).evaluateSource host 0 "(slurp \"\x00\")" start =
        .failed (.error refused) start ∧
      ∀ host source failure after,
        Interpreter.evaluate ⟨0⟩ host source start = .failed failure after →
          (∃ error : Error, failure = .error error ∧ error.category.isA .any = true) ∨
            failure = .fault .nulInFileName := by
  intro host refused
  have packaged : Prelude.isPackaged ⟨none, none⟩ = true := rfl
  obtain ⟨start, created⟩ := Interpreter.exists_create packaged .empty 0 World.initial
  have holds := Interpreter.holdsLoading_of_create packaged created
  have failures := failures_in_sessions packaged World.isOrdinary_initial created .start
  have reads : readProgram .unlimited "(slurp \"\x00\")" =
      .ok [.list [.symbol "slurp", .string "\x00"]] := by cbv
  have slurp : HasValue .empty 1 .unlimited 0 start (.symbol "slurp") (.native .readFile 0) :=
    hasValue_symbol (Heap.lookup?_of_find? (holds.native .readFile (by decide)))
  have nul : Builtin.namesNul [.string "\x00"] = true := by cbv
  have called :
      Builtin.readFile.call .empty (evaluate .empty 1) .unlimited 0 [.string "\x00"] start =
        .failed (.fault .nulInFileName) start := by
    simp only [Builtin.call, Builtin.fileText_of_namesNul _ nul]
    rfl
  have fault : Interpreter.evaluate ⟨0⟩ host "(slurp \"\x00\")" start =
      .failed (.fault .nulInFileName) start := by
    rw [Interpreter.evaluate, Host.evaluateSource_of_form _ reads, Host.evaluate,
      evaluate_native rfl rfl (.cons slurp (.cons (hasValue_string _) .nil)), called]
    intro after exhausted
    rw [called] at exhausted
    cases exhausted
  refine ⟨start, created, fault, ?_, fun host source => (failures host source).1⟩
  refine (((failures host "(slurp \"\x00\")").2 refused).1).trans ?_
  exact congrArg (Outcome.mapFailure (.replacingNul refused)) fault

end Lisp
