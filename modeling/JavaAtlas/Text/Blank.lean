/-!
# Blank characters

The characters that separate words of a text: the horizontal and vertical
controls, the four information separators, the next-line control and every
space separator of Unicode.  Trimming removes them at both ends of a text.
-/

namespace JavaAtlas.Text

/-- A character that counts as white space between words. -/
def isBlank (c : Char) : Bool :=
  let n := c.toNat
  (9 ≤ n && n ≤ 13) || (28 ≤ n && n ≤ 32) || n == 0x85 || n == 0xA0 || n == 0x1680 ||
    (0x2000 ≤ n && n ≤ 0x200A) || n == 0x2028 || n == 0x2029 || n == 0x202F ||
    n == 0x205F || n == 0x3000

/-- Characters without the blanks at the front. -/
def trimStart (cs : List Char) : List Char :=
  cs.dropWhile isBlank

/-- Characters without the blanks at the back. -/
def trimEnd (cs : List Char) : List Char :=
  (cs.reverse.dropWhile isBlank).reverse

/-- Characters without the blanks at both ends. -/
def trim (cs : List Char) : List Char :=
  trimEnd (trimStart cs)

/-- A text without the blanks at both ends. -/
def trimmed (s : String) : String :=
  String.ofList (trim s.toList)

/-- A text of blanks only, or of nothing. -/
def isBlankText (s : String) : Bool :=
  s.toList.all isBlank

end JavaAtlas.Text
