/-!
# White space

Which characters separate words, and what is left of a text once they are
taken off its ends. The set is that of the Unicode white-space property: the
ASCII blanks, the next-line character and the spaces of other scripts.
-/

set_option autoImplicit false

namespace CqlConsole.Text

/-- Characters with the white-space property, twenty-five in all. -/
def isBlank (c : Char) : Bool :=
  let n := c.toNat
  (9 ≤ n && n ≤ 13) || n == 0x20 || n == 0x85 || n == 0xA0 || n == 0x1680 ||
    (0x2000 ≤ n && n ≤ 0x200A) || n == 0x2028 || n == 0x2029 || n == 0x202F ||
    n == 0x205F || n == 0x3000

def dropEndWhile (p : Char → Bool) (s : List Char) : List Char :=
  (s.reverse.dropWhile p).reverse

def trim (s : List Char) : List Char :=
  dropEndWhile isBlank (s.dropWhile isBlank)

end CqlConsole.Text
