import Lisp.Error
import Lisp.Text.IntegerText

/-!
# Settings

Two settings are given as texts and may be absent: the directory of the prelude,
and the least stack limit.  A setting of paths holds several, separated by
colons; blank ones do not count, and an absent or empty setting leaves the
defaults.  The stack limit that is in force is only ever raised.
-/

set_option autoImplicit false

namespace Lisp

/-- The settings as they are given. -/
structure Settings where
  preludePath : Option String := none
  stackLimit : Option String := none

namespace Settings

/-- The paths of a setting, or the defaults. -/
def paths (setting : Option String) (defaults : List Path) : List Path :=
  match setting with
  | none => defaults
  | some text =>
    if text.isEmpty then defaults
    else
      let parts := (text.toList.splitOn ':').map (Text.strip Text.isBlank)
      (parts.filter fun part => !part.isEmpty).map fun part => Path.ofText (String.ofList part)

/-- The limit when none is set. -/
def defaultLimit : Int := 10000

/-- The largest limit there is. -/
def largestLimit : Int := 2147483647

/-- The least stack limit that is asked for. -/
def limit (settings : Settings) : Except Fault Int :=
  match settings.stackLimit with
  | none => .ok defaultLimit
  | some text =>
    match Text.readInteger? text with
    | some limit => .ok limit
    | none => .error .badLimit

/-- A limit, if it can be in force. -/
def checked (limit : Int) : Except Fault Int :=
  if largestLimit < limit then .error .limitTooLarge
  else if limit < 1 then .error .badLimit
  else .ok limit

/-- The stack limit in force once the settings are applied to the limit before. -/
def limitFrom (settings : Settings) (before : Int) : Except Fault Int := do
  let limit ← settings.limit
  if limit ≤ before then return before
  else checked limit

end Settings

end Lisp
