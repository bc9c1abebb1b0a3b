/-!
# UTF-8

Decoding is strict: it stops at the first octets that begin no encoded
character.  A failure names those octets by their position and says what is
wrong with the octet that follows them.  Overlong forms, surrogates and code
points past the last one are ruled out by narrower bounds on the second octet.
-/

set_option autoImplicit false

namespace Lisp.Text

/-- Why octets encode no character. -/
inductive Utf8Fault where
  | badStart
  | badContinuation
  | cutOff
  deriving DecidableEq, Repr

/-- The fault in words. -/
def Utf8Fault.message : Utf8Fault → String
  | .badStart => "invalid start byte"
  | .badContinuation => "invalid continuation byte"
  | .cutOff => "unexpected end of data"

/-- The octets at which decoding stopped: where they start, the first of them,
and how many they are. -/
structure Utf8Failure where
  position : Nat
  first : UInt8
  count : Nat
  fault : Utf8Fault
  deriving DecidableEq, Repr

/-- The failure in words. -/
def Utf8Failure.message (failure : Utf8Failure) : String :=
  let place :=
    if failure.count = 1 then
      let digits := String.ofList
        [Nat.digitChar (failure.first.toNat / 16), Nat.digitChar (failure.first.toNat % 16)]
      "byte 0x" ++ digits ++ " in position " ++ failure.position.repr
    else
      "bytes in position " ++ failure.position.repr ++ "-" ++
        (failure.position + failure.count - 1).repr
  "'utf-8' codec can't decode " ++ place ++ ": " ++ failure.fault.message

/-- A character of several octets while it is read: its first octet and where
that stands, the octets read, the code point so far, how many octets are still
missing, and the bounds on the next one. -/
structure Utf8Pending where
  position : Nat
  first : UInt8
  count : Nat
  point : Nat
  missing : Nat
  least : UInt8
  greatest : UInt8

/-- What the first octet of a longer character starts, if it can be one. -/
def utf8Lead? (position : Nat) (first : UInt8) : Option Utf8Pending :=
  let start (mask missing : Nat) (least greatest : UInt8) : Option Utf8Pending :=
    some ⟨position, first, 1, first.toNat % mask, missing, least, greatest⟩
  if 0xc2 ≤ first && first ≤ 0xdf then start 0x20 1 0x80 0xbf
  else if first = 0xe0 then start 0x10 2 0xa0 0xbf
  else if first = 0xed then start 0x10 2 0x80 0x9f
  else if 0xe1 ≤ first && first ≤ 0xef then start 0x10 2 0x80 0xbf
  else if first = 0xf0 then start 0x08 3 0x90 0xbf
  else if 0xf1 ≤ first && first ≤ 0xf3 then start 0x08 3 0x80 0xbf
  else if first = 0xf4 then start 0x08 3 0x80 0x8f
  else none

/-- Decodes octets from a position on, behind the characters decoded already,
which are held in reverse. -/
def decodeUtf8From (position : Nat) (pending? : Option Utf8Pending) (decoded : List Char) :
    List UInt8 → Except Utf8Failure (List Char)
  | [] =>
    match pending? with
    | none => .ok decoded.reverse
    | some pending => .error ⟨pending.position, pending.first, pending.count, .cutOff⟩
  | octet :: rest =>
    match pending? with
    | none =>
      if octet < 0x80 then
        decodeUtf8From (position + 1) none (Char.ofNat octet.toNat :: decoded) rest
      else
        match utf8Lead? position octet with
        | some pending => decodeUtf8From (position + 1) (some pending) decoded rest
        | none => .error ⟨position, octet, 1, .badStart⟩
    | some pending =>
      if pending.least ≤ octet && octet ≤ pending.greatest then
        let point := pending.point * 0x40 + octet.toNat % 0x40
        if pending.missing = 1 then
          decodeUtf8From (position + 1) none (Char.ofNat point :: decoded) rest
        else
          let next := ⟨pending.position, pending.first, pending.count + 1, point,
            pending.missing - 1, 0x80, 0xbf⟩
          decodeUtf8From (position + 1) (some next) decoded rest
      else
        .error ⟨pending.position, pending.first, pending.count, .badContinuation⟩

/-- The characters that octets encode, or where and why they encode none. -/
def decodeUtf8 (octets : List UInt8) : Except Utf8Failure (List Char) :=
  decodeUtf8From 0 none [] octets

/-- Writes every line ending as a newline, behind what is rewritten already,
which is held in reverse. -/
def unifyNewlinesOnto (written : List Char) : List Char → List Char
  | '\r' :: '\n' :: rest => unifyNewlinesOnto ('\n' :: written) rest
  | '\r' :: rest => unifyNewlinesOnto ('\n' :: written) rest
  | c :: rest => unifyNewlinesOnto (c :: written) rest
  | [] => written.reverse

/-- A text with each carriage return, and the newline that may follow it, turned
into a newline. -/
def unifyNewlines (text : List Char) : List Char :=
  unifyNewlinesOnto [] text

end Lisp.Text
