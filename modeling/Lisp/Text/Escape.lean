/-!
# Escapes in string literals

In a string literal three characters are written behind a backslash: the
backslash itself, the double quote, and the newline, as `n`.  Reading decodes
these three pairs from left to right; any other pair stands for itself, both
its characters kept.
-/

set_option autoImplicit false

namespace Lisp.Text

/-- One character as a string literal writes it. -/
def escapeChar (c : Char) : List Char :=
  if c = '\\' then ['\\', '\\']
  else if c = '\n' then ['\\', 'n']
  else if c = '"' then ['\\', '"']
  else [c]

/-- A text as a string literal writes it, without the quotes. -/
def escape (text : List Char) : List Char :=
  text.flatMap escapeChar

/-- Decodes the escapes of a text behind what is decoded already, which is held
in reverse. -/
def unescapeOnto (decoded : List Char) : List Char → List Char
  | '\\' :: '\\' :: rest => unescapeOnto ('\\' :: decoded) rest
  | '\\' :: 'n' :: rest => unescapeOnto ('\n' :: decoded) rest
  | '\\' :: '"' :: rest => unescapeOnto ('"' :: decoded) rest
  | c :: rest => unescapeOnto (c :: decoded) rest
  | [] => decoded.reverse

/-- What the body of a string literal stands for. -/
def unescape (body : List Char) : List Char :=
  unescapeOnto [] body

/-! ## Decoding pair by pair -/

theorem unescapeOnto_append (before decoded text : List Char) :
    unescapeOnto (decoded ++ before) text = before.reverse ++ unescapeOnto decoded text := by
  fun_induction unescapeOnto decoded text with
  | case1 decoded rest ih => simpa [unescapeOnto] using ih
  | case2 decoded rest ih => simpa [unescapeOnto] using ih
  | case3 decoded rest ih => simpa [unescapeOnto] using ih
  | case4 decoded c rest noBackslash noNewline noQuote ih =>
    rw [unescapeOnto.eq_4 _ _ _ noBackslash noNewline noQuote]
    exact ih
  | case5 decoded => simp [unescapeOnto]

theorem unescapeOnto_eq (decoded text : List Char) :
    unescapeOnto decoded text = decoded.reverse ++ unescape text := by
  simpa [unescape] using unescapeOnto_append decoded [] text

@[simp]
theorem unescape_nil : unescape [] = [] := by
  simp [unescape, unescapeOnto]

@[simp]
theorem unescape_backslash (rest : List Char) :
    unescape ('\\' :: '\\' :: rest) = '\\' :: unescape rest := by
  simp [unescape, unescapeOnto, unescapeOnto_eq ['\\']]

@[simp]
theorem unescape_newline (rest : List Char) :
    unescape ('\\' :: 'n' :: rest) = '\n' :: unescape rest := by
  simp [unescape, unescapeOnto, unescapeOnto_eq ['\n']]

@[simp]
theorem unescape_quote (rest : List Char) :
    unescape ('\\' :: '"' :: rest) = '"' :: unescape rest := by
  simp [unescape, unescapeOnto, unescapeOnto_eq ['"']]

/-- A character that is no backslash stands for itself. -/
theorem unescape_cons {c : Char} (rest : List Char) (plain : c ≠ '\\') :
    unescape (c :: rest) = c :: unescape rest := by
  simp [unescape, unescapeOnto, unescapeOnto_eq [c], plain]

end Lisp.Text
