import Lisp.Atom
import Lisp.Room
import Lisp.Token

/-!
# Reading forms

The reader turns tokens into values.  It keeps the lists that are still open,
innermost first, and takes the tokens one by one: an opening parenthesis opens a
list, a closing one completes the innermost list, and any other token is an atom.
A form is read when a value is complete and no list is open.

Reading answers with what it left: the tokens behind the form, or behind the
token at which it failed.  A closing parenthesis that closes nothing is not
taken.
-/

set_option autoImplicit false

namespace Lisp

/-! ## One form -/

/-- What reading gave, and the tokens that it left. -/
structure Reading (α : Type) where
  result : Except Failure α
  rest : List String

/-- Reads to the end of the outermost form; `openLists` holds the items read of
each open list in reverse, innermost list first. -/
def readInto (room : Room) (openLists : List (List Value)) : List String → Reading Value
  | [] =>
    match openLists with
    | [] => ⟨.error (.error .endInForm), []⟩
    | _ :: _ => ⟨.error (.error .endInList), []⟩
  | token :: rest =>
    if token = "(" then
      match room.enter? Room.reading with
      | none => ⟨.error (.fault .stackExhausted), rest⟩
      | some inner => readInto inner ([] :: openLists) rest
    else if token = ")" then
      match openLists with
      | [] => ⟨.error (.error .unexpectedClose), token :: rest⟩
      | [items] => ⟨.ok (.list items.reverse), rest⟩
      | items :: around :: further =>
        readInto (room.leave Room.reading) ((.list items.reverse :: around) :: further) rest
    else
      match Value.ofAtom token with
      | .error error => ⟨.error (.error error), rest⟩
      | .ok value =>
        match openLists with
        | [] => ⟨.ok value, rest⟩
        | items :: further => readInto room ((value :: items) :: further) rest

/-- Reads one form. -/
def readForm (room : Room) (tokens : List String) : Reading Value :=
  readInto room [] tokens

/-- Reads the items of a list up to its closing parenthesis, whatever the first
token is. -/
def readList (room : Room) (tokens : List String) : Reading Value :=
  readInto room [[]] (tokens.drop 1)

/-- Reads one token as an atom. -/
def readAtom : List String → Reading Value
  | [] => ⟨.error (.fault .noToken), []⟩
  | token :: rest =>
    match Value.ofAtom token with
    | .ok value => ⟨.ok value, rest⟩
    | .error error => ⟨.error (.error error), rest⟩

/-- The failure of a reader that a program called: running out of room is an
error then. -/
def Failure.ofReading : Failure → Failure
  | .fault .stackExhausted => .error .readingTooDeep
  | failure => failure

/-- Reads one form for a caller outside the reader. -/
def readNested (room : Room) (tokens : List String) : Reading Value :=
  match readForm room tokens with
  | ⟨.ok value, rest⟩ => ⟨.ok value, rest⟩
  | ⟨.error failure, rest⟩ => ⟨.error failure.ofReading, rest⟩

/-! ## All forms -/

/-- A form that is read takes one token at least. -/
theorem length_rest_readInto (room : Room) (openLists : List (List Value))
    (tokens : List String) (value : Value) :
    (readInto room openLists tokens).result = .ok value →
      (readInto room openLists tokens).rest.length < tokens.length := by
  fun_induction readInto room openLists tokens <;> grind

theorem length_rest_of_readNested {room : Room} {tokens : List String} {value : Value}
    {rest : List String} (success : readNested room tokens = ⟨.ok value, rest⟩) :
    rest.length < tokens.length := by
  have shorter := length_rest_readInto room [] tokens value
  unfold readNested readForm at success
  split at success
  · next found => grind
  · simp at success

/-- The forms that were read, the failure that ended reading, and the tokens that
were left. -/
structure Forms where
  forms : List Value
  failure? : Option Failure
  rest : List String

/-- Reads forms behind those read already, which are held in reverse. -/
def readAllOnto (room : Room) (forms : List Value) (tokens : List String) : Forms :=
  if tokens.isEmpty then ⟨forms.reverse, none, []⟩
  else
    match _reading : readNested room tokens with
    | ⟨.ok value, rest⟩ => readAllOnto room (value :: forms) rest
    | ⟨.error failure, rest⟩ => ⟨forms.reverse, some failure, rest⟩
termination_by tokens.length
decreasing_by exact length_rest_of_readNested (by assumption)

/-- Reads forms until the tokens end or a form fails. -/
def readAll (room : Room) (tokens : List String) : Forms :=
  readAllOnto room [] tokens

/-- The forms of a source text. -/
def readSource (room : Room) (source : String) : Forms :=
  readAll room (tokenize source)

/-- All forms of a source text, or why it cannot be read. -/
def readProgram (room : Room) (source : String) : Except Failure (List Value) :=
  let forms := readSource room source
  match forms.failure? with
  | none => .ok forms.forms
  | some failure => .error failure

/-- The first form of a source text; what follows it is ignored. -/
def readText (room : Room) (source : String) : Except Failure Value :=
  let tokens := tokenize source
  if tokens.isEmpty then .error (.error .noForm)
  else (readNested room tokens).result

end Lisp
