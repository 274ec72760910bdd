/-!
# Blank characters

Which characters count as blank when a line of a program, a setting or a number
is trimmed: those with the Unicode property White_Space. The set is wider than
the separators of source terms (`Term.isSeparator`), which are three ASCII
characters only.

Texts are trimmed as lists of characters, because the readers of this library
work on the list of characters that remain.
-/

namespace ReversePolish.Text

/-- The characters with the Unicode property White_Space. -/
def isBlank (c : Char) : Bool :=
  let n := c.toNat
  (9 ≤ n && n ≤ 13) || n == 0x20 || n == 0x85 || n == 0xA0 || n == 0x1680 ||
    (0x2000 ≤ n && n ≤ 0x200A) || n == 0x2028 || n == 0x2029 || n == 0x202F ||
    n == 0x205F || n == 0x3000

/-- Drops the blanks in front. -/
def trimStart (cs : List Char) : List Char :=
  cs.dropWhile isBlank

/-- Drops the blanks behind. -/
def trimEnd (cs : List Char) : List Char :=
  (cs.reverse.dropWhile isBlank).reverse

/-- Drops the blanks on both sides. -/
def trim (cs : List Char) : List Char :=
  trimEnd (trimStart cs)

end ReversePolish.Text
