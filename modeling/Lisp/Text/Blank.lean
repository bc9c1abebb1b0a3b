/-!
# Blank characters

The blanks are the characters that separate words: the ASCII controls from tab
to carriage return and from file separator to unit separator, the space, and
the spaces and line separators beyond ASCII.  Characters without width, such as
the byte order mark, are not blanks.
-/

set_option autoImplicit false

namespace Lisp.Text

/-- Whether a character is a blank. -/
def isBlank (c : Char) : Bool :=
  let point := c.toNat
  (0x09 ≤ point && point ≤ 0x0d) || (0x1c ≤ point && point ≤ 0x20) ||
    (0x80 ≤ point &&
      (point == 0x85 || point == 0xa0 || point == 0x1680 ||
        (0x2000 ≤ point && point ≤ 0x200a) || point == 0x2028 || point == 0x2029 ||
        point == 0x202f || point == 0x205f || point == 0x3000))

/-- A text without the characters of one class at either end. -/
def strip (drop : Char → Bool) (text : List Char) : List Char :=
  ((text.dropWhile drop).reverse.dropWhile drop).reverse

end Lisp.Text
