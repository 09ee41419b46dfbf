import GraphPaths.Text.Digit

/-!
# Tokens of GraphQL

A text is a row of tokens: punctuators, names, numbers and texts. `Token.describe` is how a message
names one. A text that cannot be read to its end has `broken` as its last token, with the fault
found there, so that the fault counts only when a reader gets as far.
-/

namespace GraphPaths

namespace Graphql

/-- The punctuators. -/
inductive Punctuator where
  | bang
  | dollar
  | amp
  | parenL
  | parenR
  | spread
  | colon
  | equals
  | at
  | bracketL
  | bracketR
  | braceL
  | pipe
  | braceR
deriving Repr, DecidableEq, Inhabited

/-- The text of a punctuator. -/
def Punctuator.text : Punctuator → String
  | .bang => "!"
  | .dollar => "$"
  | .amp => "&"
  | .parenL => "("
  | .parenR => ")"
  | .spread => "..."
  | .colon => ":"
  | .equals => "="
  | .at => "@"
  | .bracketL => "["
  | .bracketR => "]"
  | .braceL => "\x7b"
  | .pipe => "|"
  | .braceR => "\x7d"

/-- The punctuator of one character. -/
def Punctuator.ofChar (c : Char) : Option Punctuator :=
  [Punctuator.bang, .dollar, .amp, .parenL, .parenR, .colon, .equals, .at, .bracketL, .bracketR,
    .braceL, .pipe, .braceR].find? fun p => p.text.toList == [c]

/-! ## Faults -/

/-- Why no token can be read. -/
inductive LexicalFault where
  /-- No token starts with this character. -/
  | unexpected (c : Char)
  | singleQuote
  | twoDots
  /-- A point with digits after it and none before. -/
  | bareFraction (digits : String)
  | digitAfterZero (c : Char)
  /-- Something else stands where a digit must, or nothing. -/
  | notDigit (c : Option Char)
  | unterminated
  | unicodeEscape (text : String)
  | characterEscape (text : String)
deriving Repr, DecidableEq

/-- A character as messages show it: in quotes, or by its code beyond ASCII. -/
def showChar (c : Char) : String :=
  if ' ' ≤ c && c ≤ '~' then String.ofList ['\'', c, '\'']
  else
    let n := c.toNat
    let width := if n < 0x10000 then 4 else if n < 0x100000 then 5 else 6
    "U+" ++ String.ofList (Text.hexPadded true width n)

/-- The message about a fault. -/
def LexicalFault.message : LexicalFault → String
  | .unexpected c => s!"Unexpected character: {showChar c}."
  | .singleQuote =>
    "Unexpected single quote character ('), did you mean to use a double quote (\")?"
  | .twoDots => "Unexpected '..', did you mean '...'?"
  | .bareFraction ds => s!"Invalid number, expected digit before '.', did you mean '0.{ds}'?"
  | .digitAfterZero c => s!"Invalid number, unexpected digit after 0: {showChar c}."
  | .notDigit c =>
    "Invalid number, expected digit but got: " ++ ((c.map showChar).getD "<EOF>") ++ "."
  | .unterminated => "Unterminated string."
  | .unicodeEscape t => s!"Invalid Unicode escape sequence: '{t}'."
  | .characterEscape t => s!"Invalid character escape sequence: '{t}'."

/-! ## Tokens -/

/-- A token. -/
inductive Token where
  | punct (p : Punctuator)
  | name (s : String)
  | int (s : String)
  | float (s : String)
  | string (s : String)
  | blockString (s : String)
  | eof
  | broken (fault : LexicalFault)
deriving Repr, DecidableEq, Inhabited

/-- The text that a token carries. -/
def Token.value? : Token → Option String
  | .name s | .int s | .float s | .string s | .blockString s => some s
  | _ => none

/-- The name of the kind of a token. -/
def Token.kindName : Token → String
  | .punct p => "'" ++ p.text ++ "'"
  | .name _ => "Name"
  | .int _ => "Int"
  | .float _ => "Float"
  | .string _ => "String"
  | .blockString _ => "BlockString"
  | .eof => "<EOF>"
  | .broken _ => "<EOF>"

/-- A token as messages name it. -/
def Token.describe (t : Token) : String :=
  match t.value? with
  | some s => t.kindName ++ " '" ++ s ++ "'"
  | none => t.kindName

/-- A token at its place, told by the length of the text from its start on. -/
structure Lexeme where
  token : Token
  left : Nat
deriving Repr, DecidableEq, Inhabited

end Graphql

end GraphPaths
