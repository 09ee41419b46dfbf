/-!
# Gaps and breaks

The characters that end a line of YAML, and those that may follow a token.
-/

namespace GraphPaths

namespace Yaml

/-- Characters that end a line; a carriage return ends one only in what is read. -/
def isBreak (c : Char) : Bool := c == '\n' || c == '\x85' || c == '\u2028' || c == '\u2029'

/-- Characters that end a line of what is read. -/
def isLineEnd (c : Char) : Bool := c == '\r' || isBreak c

/-- Characters that end a line, and the end of the text. -/
def isLineStop (c : Char) : Bool := c == '\x00' || isLineEnd c

/-- Characters that separate tokens, and the end of the text. -/
def isGap (c : Char) : Bool := c == ' ' || c == '\t' || isLineStop c

end Yaml

end GraphPaths
