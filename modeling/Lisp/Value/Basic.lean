import Lisp.Number.Basic

/-!
# Values

Code and data share one type: a program is a value, read from text and handed
to the evaluator.  Closures and native operations are values too.  A foreign
value belongs to the host of the interpreter and not to the language; it can be
held and passed on, and is refused wherever its kind matters.

A closure has an identity of its own, given when it is made, so that two
closures with the same text stay apart.  A native operation belongs to the root
frame it was registered for.
-/

set_option autoImplicit false

namespace Lisp

/-- A frame is known by its place in the heap. -/
abbrev FrameId := Nat

/-! ## Native operations -/

/-- The native operations. -/
inductive Builtin where
  | add
  | subtract
  | multiply
  | divide
  | less
  | lessOrEqual
  | greater
  | greaterOrEqual
  | equal
  | list
  | isList
  | isEmpty
  | count
  | printLine
  | concatenate
  | readFile
  | readText
  | evaluate
  deriving DecidableEq, Repr

namespace Builtin

/-- Every native operation, in the order of registration. -/
def all : List Builtin :=
  [.add, .subtract, .multiply, .divide, .less, .lessOrEqual, .greater, .greaterOrEqual, .equal,
    .list, .isList, .isEmpty, .count, .printLine, .concatenate, .readFile, .readText, .evaluate]

/-- The name that a native operation is bound to. -/
def name : Builtin → String
  | .add => "+"
  | .subtract => "-"
  | .multiply => "*"
  | .divide => "/"
  | .less => "<"
  | .lessOrEqual => "<="
  | .greater => ">"
  | .greaterOrEqual => ">="
  | .equal => "="
  | .list => "list"
  | .isList => "list?"
  | .isEmpty => "empty?"
  | .count => "count"
  | .printLine => "prn"
  | .concatenate => "str"
  | .readFile => "slurp"
  | .readText => "read-string"
  | .evaluate => "eval"

/-- The native operation of a name. -/
def ofName? (name : String) : Option Builtin :=
  all.find? fun operation => operation.name == name

end Builtin

/-! ## Values -/

/-- A value, which is also a form. -/
inductive Value where
  | nil
  | boolean (value : Bool)
  | number (value : Number)
  | string (text : String)
  | symbol (name : String)
  | list (items : List Value)
  | closure (identity : Nat) (parameters : List String) (body : Value) (frame : FrameId)
  | native (operation : Builtin) (root : FrameId)
  | foreign (shown : String)

namespace Value

/-- The kinds of values of the language. -/
inductive Kind where
  | nil
  | boolean
  | number
  | string
  | symbol
  | list
  | closure
  | native
  deriving DecidableEq, Repr

/-- The name of a kind. -/
def Kind.name : Kind → String
  | .nil => "nil"
  | .boolean => "boolean"
  | .number => "number"
  | .string => "string"
  | .symbol => "symbol"
  | .list => "list"
  | .closure => "closure"
  | .native => "native-function"

/-- Whether a value is a number. -/
def isNumber : Value → Bool
  | .number _ => true
  | _ => false

/-- Whether a value counts as true: all do but nil and false. -/
def isTruthy : Value → Bool
  | .nil => false
  | .boolean false => false
  | _ => true

/-- The number that a double is. -/
def ofDouble (x : Double) : Value :=
  .number (.double x)

/-- The text that stands for a closure wherever one is written out. -/
def closureText (parameters : List String) : String :=
  "#<function (" ++ " ".intercalate parameters ++ ")>"

/-- The text that stands for a native operation wherever one is written out. -/
def nativeText (operation : Builtin) : String :=
  "#<native-function " ++ operation.name ++ ">"

end Value

end Lisp
