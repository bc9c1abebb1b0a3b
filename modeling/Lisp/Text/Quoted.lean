import Lisp.Text.Printable

/-!
# Quoted text in messages

A message shows a text between quotes with all that could be misread written as
an escape.  The quotes are single unless the text holds a single quote and no
double one.  A backslash, the quote in use, newline, carriage return and tab
have short escapes; other characters that are not printable are written as
their code point in two, four or eight hexadecimal digits.
-/

set_option autoImplicit false

namespace Lisp.Text

/-- The last `width` hexadecimal digits of a number. -/
def hexDigits (width number : Nat) : List Char :=
  (List.range width).reverse.map fun place => Nat.digitChar ((number >>> (4 * place)) % 16)

/-- The escape that names a code point. -/
def pointEscape (point : Nat) : List Char :=
  if point < 0x100 then '\\' :: 'x' :: hexDigits 2 point
  else if point < 0x10000 then '\\' :: 'u' :: hexDigits 4 point
  else '\\' :: 'U' :: hexDigits 8 point

/-- One character of a text between the given quotes. -/
def quotedChar (quote c : Char) : List Char :=
  if c = quote || c = '\\' then ['\\', c]
  else if c = '\n' then ['\\', 'n']
  else if c = '\r' then ['\\', 'r']
  else if c = '\t' then ['\\', 't']
  else if isPrintable c then [c]
  else pointEscape c.toNat

/-- The quote to put around a text. -/
def quoteFor (text : List Char) : Char :=
  if text.contains '\'' && !text.contains '"' then '"' else '\''

/-- A text as messages show it. -/
def quoted (text : String) : String :=
  let chars := text.toList
  let quote := quoteFor chars
  String.ofList (quote :: (chars.flatMap (quotedChar quote) ++ [quote]))

end Lisp.Text
