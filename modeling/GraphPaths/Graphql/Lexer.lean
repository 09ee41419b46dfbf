import GraphPaths.Graphql.Token
import GraphPaths.Text.Line

/-!
# Reading tokens

`lex` turns a text into its tokens: it leaves out blanks, commas, byte order marks and comments,
takes the longest name or number, undoes the escapes of texts and the indentation of block texts.
The last token is the end of the text or the fault that keeps it from being read.
-/

namespace GraphPaths

namespace Graphql

/-- Whether a name may start with a character. -/
def isNameStart (c : Char) : Bool := c == '_' || ('a' ≤ c && c ≤ 'z') || ('A' ≤ c && c ≤ 'Z')

/-- Whether a character is an ASCII digit. -/
def isDigit (c : Char) : Bool := '0' ≤ c && c ≤ '9'

/-- Whether a name may go on with a character. -/
def isNameChar (c : Char) : Bool := isNameStart c || isDigit c

/-- Characters between tokens. -/
def isIgnored (c : Char) : Bool :=
  c == '\ufeff' || c == '\t' || c == ' ' || c == ',' || c == '\n' || c == '\r'

/-- Whether a character ends a line. -/
def isLineEnd (c : Char) : Bool := c == '\n' || c == '\r'

/-- A fault in front of a rest of the text, told by its length. -/
structure LexicalStop where
  fault : LexicalFault
  left : Nat

/-- The fault in front of a rest. -/
def stopAt {α : Type} (fault : LexicalFault) (rest : List Char) : Except LexicalStop α :=
  .error ⟨fault, rest.length⟩

/-! ## Numbers -/

/-- One digit or more. -/
def digits (cs : List Char) : Except LexicalStop (List Char × List Char) :=
  match cs with
  | c :: _ => if isDigit c then .ok (cs.span isDigit) else stopAt (.notDigit (some c)) cs
  | [] => stopAt (.notDigit none) cs

/-- The whole part of a number: nought alone or digits. -/
def wholePart (cs : List Char) : Except LexicalStop (List Char × List Char) :=
  match cs with
  | '0' :: r =>
    match r with
    | c :: _ => if isDigit c then stopAt (.digitAfterZero c) r else .ok (['0'], r)
    | [] => .ok (['0'], r)
  | _ => digits cs

/-- The fraction of a number, if there is a point. -/
def fractionPart (cs : List Char) : Except LexicalStop (List Char × List Char) :=
  match cs with
  | '.' :: r => do
    let (ds, rest) ← digits r
    return ('.' :: ds, rest)
  | _ => .ok ([], cs)

/-- The exponent of a number, if there is a letter E. -/
def exponentPart (cs : List Char) : Except LexicalStop (List Char × List Char) :=
  match cs with
  | e :: r =>
    if e == 'e' || e == 'E' then do
      let (sign, r) := match r with
        | s :: r' => if s == '+' || s == '-' then ([s], r') else ([], r)
        | [] => ([], r)
      let (ds, rest) ← digits r
      return (e :: sign ++ ds, rest)
    else .ok ([], cs)
  | [] => .ok ([], cs)

/-- The number at the start of a text; no point or name may follow it. -/
def number (cs : List Char) : Except LexicalStop (Token × List Char) := do
  let (sign, r) := match cs with
    | '-' :: r => (['-'], r)
    | _ => ([], cs)
  let (whole, r) ← wholePart r
  let (fraction, r) ← fractionPart r
  let (exponent, r) ← exponentPart r
  match r with
  | c :: _ => if c == '.' || isNameStart c then stopAt (.notDigit (some c)) r
  | [] => pure ()
  let text := String.ofList (sign ++ whole ++ fraction ++ exponent)
  return (if fraction.isEmpty && exponent.isEmpty then .int text else .float text, r)

/-! ## Texts -/

/-- Whether a number is the code of a character. -/
def isScalarValue (n : Nat) : Bool := n < 0xD800 || (0xE000 ≤ n && n ≤ 0x10FFFF)

/-- The character of the digits up to a closing brace, and the rest; or the number of characters
looked at, those of the opening included. -/
def bracedEscape : Nat → Nat → Nat → List Char → Except Nat (Char × List Char)
  | 0, size, _, _ => .error size
  | _, size, _, [] => .error size
  | budget + 1, size, point, c :: r =>
    if c == '\x7d' then
      if size < 4 || !isScalarValue point then .error (size + 1) else .ok (Char.ofNat point, r)
    else match Text.hexDigit c with
      | none => .error (size + 1)
      | some d => bracedEscape budget (size + 1) (point * 16 + d) r

/-- The number of the four hexadecimal digits that a text starts with, and the rest. -/
def unit4 (cs : List Char) : Option (Nat × List Char) :=
  match cs with
  | a :: b :: c :: d :: r => do
    let a ← Text.hexDigit a
    let b ← Text.hexDigit b
    let c ← Text.hexDigit c
    let d ← Text.hexDigit d
    return (((a * 16 + b) * 16 + c) * 16 + d, r)
  | _ => none

/-- The character of two halves, the second of which is an escape at the start of a text. -/
def lowHalf (high : Nat) (cs : List Char) : Option (Char × List Char) :=
  match cs with
  | '\\' :: 'u' :: r => do
    let (low, r) ← unit4 r
    if 0xDC00 ≤ low && low < 0xE000 then
      some (Char.ofNat (0x10000 + (high - 0xD800) * 0x400 + (low - 0xDC00)), r)
    else none
  | _ => none

/-- The character that a text names by a code of four digits, or by two such codes. -/
def codedChar (cs : List Char) : Option (Char × List Char) := do
  let (n, r) ← unit4 cs
  if isScalarValue n then some (Char.ofNat n, r)
  else if n < 0xDC00 then lowHalf n r
  else none

/-- The character of the escape of a code that `cs` starts with. -/
def unicodeEscape (cs : List Char) : Except LexicalStop (Char × List Char) :=
  match cs with
  | '\\' :: 'u' :: '\x7b' :: r =>
    match bracedEscape 9 3 0 r with
    | .ok found => .ok found
    | .error size => stopAt (.unicodeEscape (String.ofList (cs.take size))) cs
  | _ =>
    match codedChar (cs.drop 2) with
    | some found => .ok found
    | none => stopAt (.unicodeEscape (String.ofList (cs.take 6))) cs

/-- The character that a letter after a backslash stands for. -/
def escapedChar : Char → Option Char
  | '"' => some '"'
  | '\\' => some '\\'
  | '/' => some '/'
  | 'b' => some '\x08'
  | 'f' => some '\x0c'
  | 'n' => some '\n'
  | 'r' => some '\r'
  | 't' => some '\t'
  | _ => none

/-- The characters of a text up to its closing quote, after those in `acc`, the last first. -/
def stringChars : Nat → List Char → List Char → Except LexicalStop (Token × List Char)
  | 0, _, cs => stopAt .unterminated cs
  | _, _, [] => stopAt .unterminated []
  | fuel + 1, acc, c :: r =>
    if c == '"' then .ok (.string (String.ofList acc.reverse), r)
    else if c == '\\' then
      match r with
      | [] => stopAt (.characterEscape (String.ofList [c])) (c :: r)
      | 'u' :: _ =>
        match unicodeEscape (c :: r) with
        | .ok (e, rest) => stringChars fuel (e :: acc) rest
        | .error stop => .error stop
      | e :: rest =>
        match escapedChar e with
        | some e => stringChars fuel (e :: acc) rest
        | none => stopAt (.characterEscape (String.ofList ['\\', e])) (c :: r)
    else if isLineEnd c then stopAt .unterminated (c :: r)
    else stringChars fuel (c :: acc) r

/-- The number of blanks at the start of a line. -/
def indentation (line : List Char) : Nat :=
  (line.takeWhile fun c => c == ' ' || c == '\t').length

/-- Whether a line holds nothing but blanks. -/
def isBlankLine (line : List Char) : Bool := indentation line == line.length

/-- The indentation that all lines but the first share, blank ones not counted. -/
def commonIndentation (lines : List (List Char)) : Option Nat :=
  ((lines.tail.filter fun l => !isBlankLine l).map indentation).min?

/-- The lines of a block text without their common indentation and the blank lines at both ends. -/
def dedent (lines : List (List Char)) : List (List Char) :=
  let cut : List Char → List Char := match commonIndentation lines with
    | some n => fun line => line.drop n
    | none => fun _ => []
  let lines := lines.take 1 ++ lines.tail.map cut
  ((lines.dropWhile isBlankLine).reverse.dropWhile isBlankLine).reverse

/-- The characters of a block text up to its end, line ends made one. -/
def blockChars : List Char → List Char → Except LexicalStop (Token × List Char)
  | _, [] => stopAt .unterminated []
  | acc, '"' :: '"' :: '"' :: r =>
    let lines := dedent (Text.splitAt '\n' acc.reverse)
    .ok (.blockString (String.ofList (['\n'].intercalate lines)), r)
  | acc, '\\' :: '"' :: '"' :: '"' :: r => blockChars ('"' :: '"' :: '"' :: acc) r
  | acc, '\r' :: '\n' :: r => blockChars ('\n' :: acc) r
  | acc, c :: r => blockChars ((if c == '\r' then '\n' else c) :: acc) r

/-! ## Tokens -/

/-- The token that starts with a point. -/
def dots (cs : List Char) : Except LexicalStop (Token × List Char) :=
  match cs with
  | '.' :: '.' :: '.' :: r => .ok (.punct .spread, r)
  | '.' :: '.' :: _ => stopAt .twoDots cs
  | '.' :: r =>
    let ds := r.takeWhile isDigit
    if ds.isEmpty then stopAt (.unexpected '.') cs
    else stopAt (.bareFraction (String.ofList ds)) cs
  | _ => stopAt (.unexpected '.') cs

/-- The token at the start of a text that starts with one. -/
def token (cs : List Char) : Except LexicalStop (Token × List Char) :=
  match cs with
  | [] => .ok (.eof, [])
  | '"' :: '"' :: '"' :: r => blockChars [] r
  | '"' :: r => stringChars (r.length + 1) [] r
  | c :: r =>
    match Punctuator.ofChar c with
    | some p => .ok (.punct p, r)
    | none =>
      if isDigit c || c == '-' then number cs
      else if isNameStart c then
        .ok (.name (String.ofList (cs.takeWhile isNameChar)), cs.dropWhile isNameChar)
      else if c == '.' then dots cs
      else if c == '\'' then stopAt .singleQuote cs
      else stopAt (.unexpected c) cs

/-- A text from its first token on; the flag says that a comment is being left out. -/
def skipIgnored : Bool → List Char → List Char
  | _, [] => []
  | true, c :: r => skipIgnored (!isLineEnd c) r
  | false, c :: r => if isIgnored c then skipIgnored false r
    else if c == '#' then skipIgnored true r
    else c :: r

/-- The tokens of a text with their places. -/
def lexFrom : Nat → List Char → List Lexeme
  | 0, _ => [⟨.eof, 0⟩]
  | fuel + 1, cs =>
    match skipIgnored false cs with
    | [] => [⟨.eof, 0⟩]
    | cs =>
      match token cs with
      | .ok (t, rest) => ⟨t, cs.length⟩ :: lexFrom fuel rest
      | .error stop => [⟨.broken stop.fault, stop.left⟩]

/-- The tokens of a text. -/
def lex (cs : List Char) : List Lexeme := lexFrom (cs.length + 1) cs

end Graphql

end GraphPaths
