import GraphPaths.Text.Digit
import GraphPaths.Text.Glyph

/-!
# Quoted text in messages

A text inside a message stands in single quotes, or in double quotes when it holds a single quote
and no double one. Within, the quote in use and the backslash are escaped, and so is every
character without a glyph: by name for tab and the line ends, else by its code in two, four or
eight hexadecimal digits.
-/

namespace GraphPaths.Text

/-- A character as it stands between quotes `q`. -/
def quotedChar (q : Char) (c : Char) : List Char :=
  if c == q || c == '\\' then ['\\', c]
  else if c == '\t' then ['\\', 't']
  else if c == '\n' then ['\\', 'n']
  else if c == '\r' then ['\\', 'r']
  else if prints c then [c]
  else if c.toNat < 0x100 then '\\' :: 'x' :: hexPadded false 2 c.toNat
  else if c.toNat < 0x10000 then '\\' :: 'u' :: hexPadded false 4 c.toNat
  else '\\' :: 'U' :: hexPadded false 8 c.toNat

/-- The quote a text is put in. -/
def quoteOf (s : String) : Char :=
  if s.toList.contains '\'' && !s.toList.contains '"' then '"' else '\''

/-- A text in quotes. -/
def quoted (s : String) : String :=
  let q := quoteOf s
  String.ofList (q :: s.toList.flatMap (quotedChar q) ++ [q])

end GraphPaths.Text
