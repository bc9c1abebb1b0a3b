import Lisp.Value.Basic
import Lisp.Files.Tree

/-!
# Errors and faults

An error is a mistake of a program or of its text.  It keeps what its message
needs: names, texts of values as messages show them, kinds and counts.  Errors
fall into categories that form a tree, so that a caller may ask for a whole
branch.

A fault is no mistake of the language but a limit or a condition of its
surroundings that an operation met.  Work that stops does so with a failure:
an error or a fault.
-/

set_option autoImplicit false

namespace Lisp

/-! ## Categories -/

/-- The categories of errors. -/
inductive Category where
  | any
  | malformed
  | unfinished
  | empty
  | unbound
  | notCallable
  | unreadable
  | wrongType
  | wrongCount
  | tooDeep
  deriving DecidableEq, Repr

namespace Category

/-- A category with the wider ones it belongs to, from narrow to wide. -/
def lineage : Category → List Category
  | .any => [.any]
  | .unfinished => [.unfinished, .malformed, .any]
  | .empty => [.empty, .malformed, .any]
  | category => [category, .any]

/-- Whether a category is another one or belongs to it. -/
def isA (category wider : Category) : Bool :=
  category.lineage.contains wider

end Category

/-! ## Errors -/

/-- A mistake of a program or its text.  A `shown` value is its text as messages
show it. -/
inductive Error where
  /-- A closing parenthesis that closes nothing. -/
  | unexpectedClose
  | endInForm
  | endInList
  | malformedNumber (token : String)
  | unbalancedString (token : String)
  | noForm
  | readingTooDeep
  | unbound (name : String)
  | notCallable (rendered : String)
  /-- A closure called with another number of arguments than it has parameters. -/
  | closureArity (shown : String) (expected given : Nat)
  | definitionArity
  | bindingArity
  | conditionalArity
  | functionArity
  | definitionName (shown : String)
  | bindingPairs
  | bindingName (shown : String)
  | parameters (shown : String)
  | evaluationTooDeep
  | notValue (shown : String)
  | notRenderable (shown : String)
  | notName (shown : String)
  | noArguments (operation : Builtin)
  | argumentCount (operation : Builtin) (expected given : Nat)
  | notNumber (operation : Builtin) (kind : Value.Kind)
  | notList (operation : Builtin) (kind : Value.Kind)
  | notFileName (kind : Value.Kind)
  | notSource (kind : Value.Kind)
  | unreadableFile (name : String) (failure : ReadFailure)
  deriving DecidableEq, Repr

namespace Error

/-- The category of an error. -/
def category : Error → Category
  | .unexpectedClose => .malformed
  | .endInForm => .unfinished
  | .endInList => .unfinished
  | .malformedNumber _ => .malformed
  | .unbalancedString _ => .unfinished
  | .noForm => .empty
  | .readingTooDeep => .tooDeep
  | .unbound _ => .unbound
  | .notCallable _ => .notCallable
  | .closureArity .. => .wrongCount
  | .definitionArity => .wrongCount
  | .bindingArity => .wrongCount
  | .conditionalArity => .wrongCount
  | .functionArity => .wrongCount
  | .definitionName _ => .wrongType
  | .bindingPairs => .malformed
  | .bindingName _ => .malformed
  | .parameters _ => .malformed
  | .evaluationTooDeep => .tooDeep
  | .notValue _ => .wrongType
  | .notRenderable _ => .wrongType
  | .notName _ => .wrongType
  | .noArguments _ => .wrongCount
  | .argumentCount .. => .wrongCount
  | .notNumber .. => .wrongType
  | .notList .. => .wrongType
  | .notFileName _ => .wrongType
  | .notSource _ => .wrongType
  | .unreadableFile .. => .unreadable

/-- The message of an error. -/
def message : Error → String
  | .unexpectedClose => "Unexpected ')'"
  | .endInForm => "Unexpected EOF while reading form"
  | .endInList => "Unexpected EOF while reading list"
  | .malformedNumber token => "Malformed number: " ++ token
  | .unbalancedString token => "Unbalanced string: " ++ token
  | .noForm => "No form to read"
  | .readingTooDeep => "Maximum reader nesting depth exceeded"
  | .unbound name => "'" ++ name ++ "' not found"
  | .notCallable rendered => rendered ++ " is not a function"
  | .closureArity shown expected given =>
    shown ++ " expects " ++ expected.repr ++ " argument(s), got " ++ given.repr
  | .definitionArity => "def! requires a name and a value expression"
  | .bindingArity => "let* requires a binding list and a body"
  | .conditionalArity =>
    "if requires a condition, a then-expression and an optional else-expression"
  | .functionArity => "fn* requires a parameter list and a body"
  | .definitionName shown => "def! name must be a symbol, got " ++ shown
  | .bindingPairs => "let* bindings must be a list of name/expression pairs"
  | .bindingName shown => "let* binding name must be a symbol, got " ++ shown
  | .parameters shown => "fn* parameters must be a list of symbols, got " ++ shown
  | .evaluationTooDeep => "Maximum evaluation depth exceeded"
  | .notValue shown => "Not a mal value: " ++ shown
  | .notRenderable shown => "Cannot render " ++ shown
  | .notName shown => "Cannot define " ++ shown ++ ": not a symbol"
  | .noArguments operation => operation.name ++ " requires at least 1 argument"
  | .argumentCount operation expected given =>
    operation.name ++ " requires exactly " ++ expected.repr ++ " argument(s), got " ++ given.repr
  | .notNumber operation kind =>
    "All arguments to " ++ operation.name ++ " must be numbers, got " ++ kind.name
  | .notList operation kind => operation.name ++ " expects a list, got " ++ kind.name
  | .notFileName kind => "slurp expects a file name string, got " ++ kind.name
  | .notSource kind => "read-string expects a string, got " ++ kind.name
  | .unreadableFile name failure =>
    "Cannot read " ++ name ++ ": " ++ failure.message (Path.ofText name)

end Error

/-! ## Faults -/

/-- A condition of the surroundings that stops an operation. -/
inductive Fault where
  /-- Something nests deeper than the stack allows. -/
  | stackExhausted
  /-- An integer has to become a double and is too large. -/
  | integerTooLarge
  /-- A file name holds the NUL character. -/
  | nulInFileName
  /-- The stack limit is no integer, or not positive. -/
  | badLimit
  /-- The stack limit is past the largest there is. -/
  | limitTooLarge
  /-- The setting of the prelude directory names no directory. -/
  | noPreludePath
  /-- The prelude's directory cannot be looked at, or one of its files cannot be read. -/
  | unreadablePrelude (failure : ReadFailure)
  /-- An operation of the host was given something of a type that it does not take. -/
  | wrongHostType
  deriving DecidableEq, Repr

namespace Fault

/-- There is no token where one was asked for. -/
@[match_pattern]
abbrev noToken : Fault := .wrongHostType

/-- A list stands for a name, and nothing can be kept under a list. -/
@[match_pattern]
abbrev listAsName : Fault := .wrongHostType

end Fault

/-- What stops work: an error of the program, or a fault. -/
inductive Failure where
  | error (error : Error)
  | fault (fault : Fault)
  deriving DecidableEq, Repr

end Lisp
