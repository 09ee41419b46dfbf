/-!
# White space

`isBlank` is the class of white space of the Unicode character database together with the four
information separators U+001C to U+001F; a zero-width space and a byte order mark are not in it.
`strip` removes it from both ends, `isAsciiBlank` is its part among the six ASCII blanks that
numerals may be padded with.
-/

namespace GraphPaths.Text

/-- The six blanks of ASCII: tab, line feed, vertical tab, form feed, carriage return, space. -/
def isAsciiBlank (c : Char) : Bool :=
  c == ' ' || ('\t' ≤ c && c ≤ '\r')

/-- White space. -/
def isBlank (c : Char) : Bool :=
  isAsciiBlank c || ('\x1c' ≤ c && c ≤ '\x1f') || c == '\x85' || c == '\xa0' || c == '\u1680' ||
    ('\u2000' ≤ c && c ≤ '\u200a') || c == '\u2028' || c == '\u2029' || c == '\u202f' ||
    c == '\u205f' || c == '\u3000'

/-- A list without its leading and trailing members of a class. -/
def stripBy (p : Char → Bool) (cs : List Char) : List Char :=
  ((cs.dropWhile p).reverse.dropWhile p).reverse

/-- A text without white space at its ends. -/
def strip (cs : List Char) : List Char := stripBy isBlank cs

/-- The pieces of a text between white space. -/
def words (cs : List Char) : List (List Char) :=
  (cs.splitBy fun a b => isBlank a == isBlank b).filter fun w => w.any fun c => !isBlank c

end GraphPaths.Text
