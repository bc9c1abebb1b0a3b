import Lisp.Form

/-!
# Token cursors

A cursor goes through tokens step by step and knows its position.  It never goes
back: each reading leaves it where the tokens that were left begin, also when the
reading failed.
-/

set_option autoImplicit false

namespace Lisp

/-- Tokens with a position: how many were taken, and those that were not. -/
structure TokenCursor where
  position : Nat
  pending : List String

namespace TokenCursor

/-- A cursor at the start of tokens. -/
def ofTokens (tokens : List String) : TokenCursor :=
  ⟨0, tokens⟩

/-- The token at the position. -/
def peek? (cursor : TokenCursor) : Option String :=
  cursor.pending.head?

/-- Whether all tokens were taken. -/
def atEnd (cursor : TokenCursor) : Bool :=
  cursor.pending.isEmpty

/-- The cursor when only `rest` is left. -/
def leaving (cursor : TokenCursor) (rest : List String) : TokenCursor :=
  ⟨cursor.position + (cursor.pending.length - rest.length), rest⟩

/-- The cursor behind the token at the position. -/
def advance (cursor : TokenCursor) : TokenCursor :=
  cursor.leaving (cursor.pending.drop 1)

/-- Runs a reader from the position on. -/
def read {α : Type} (cursor : TokenCursor) (reader : List String → Reading α) :
    Except Failure α × TokenCursor :=
  let reading := reader cursor.pending
  (reading.result, cursor.leaving reading.rest)

/-- Reads all forms from the position on. -/
def readAll (cursor : TokenCursor) (room : Room) : Forms × TokenCursor :=
  let forms := Lisp.readAll room cursor.pending
  (forms, cursor.leaving forms.rest)

end TokenCursor

end Lisp
