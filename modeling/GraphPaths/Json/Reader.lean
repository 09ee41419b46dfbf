import GraphPaths.Number.Numeral
import GraphPaths.Text.Line
import GraphPaths.Value.Same

/-!
# Reading JSON

A text is read as one value with white space around it. `NaN`, `Infinity` and `-Infinity` are
numbers, and of several entries with the same key the last counts, in the place of the first. An
error names the place where reading stopped: its offset, and the line and column.
-/

namespace GraphPaths

namespace Json

/-- What is wrong at a place of a text. -/
inductive Fault where
  | value
  | propertyName
  | colon
  | comma
  | extraData
  | escape
  | unicodeEscape
  | control
  | unterminated
  | byteOrderMark
deriving Repr, DecidableEq

/-- The message about a fault. -/
def Fault.message : Fault → String
  | .value => "Expecting value"
  | .propertyName => "Expecting property name enclosed in double quotes"
  | .colon => "Expecting ':' delimiter"
  | .comma => "Expecting ',' delimiter"
  | .extraData => "Extra data"
  | .escape => "Invalid \\escape"
  | .unicodeEscape => "Invalid \\uXXXX escape"
  | .control => "Invalid control character at"
  | .unterminated => "Unterminated string starting at"
  | .byteOrderMark => "Unexpected UTF-8 BOM (decode using utf-8-sig)"

/-- Why a text could not be read. -/
inductive ReadError where
  /-- A fault at an offset, with the line and the column. -/
  | fault (fault : Fault) (line column offset : Nat)
  /-- An integer with more digits than the limit allows. -/
  | number (error : NumeralError)
deriving Repr, DecidableEq

/-- The message of an error. -/
def ReadError.message : ReadError → String
  | .fault f line column offset =>
    s!"{f.message}: line {Text.decimal line} column {Text.decimal column} (char {Text.decimal offset})"
  | .number e => e.message

/-- What stopped a reader: a fault in front of a rest of the text, told by its length, or a number
out of bounds. -/
inductive Stop where
  | fault (fault : Fault) (left : Nat)
  | number (error : NumeralError)

/-- White space between tokens. -/
def isSpace (c : Char) : Bool := c == ' ' || c == '\t' || c == '\n' || c == '\r'

/-- A text from its first character on that is no space. -/
def skipSpace (cs : List Char) : List Char := cs.dropWhile isSpace

/-- The fault in front of a rest. -/
def stopAt {α : Type} (f : Fault) (rest : List Char) : Except Stop α := .error (.fault f rest.length)

/-! ## Texts -/

/-- The number of four hexadecimal digits, and the rest, which holds the closing quote at least. -/
def unit4 (cs : List Char) : Option (Nat × List Char) :=
  match cs with
  | a :: b :: c :: d :: e :: r => do
    let a ← Text.hexDigit a
    let b ← Text.hexDigit b
    let c ← Text.hexDigit c
    let d ← Text.hexDigit d
    return (((a * 16 + b) * 16 + c) * 16 + d, e :: r)
  | _ => none

/-- The character of a code point; a lone surrogate becomes the replacement character. -/
def ofCode (n : Nat) : Char :=
  if 0xD800 ≤ n && n < 0xE000 then '\ufffd' else Char.ofNat n

/-- The character after `\u`, its two halves joined, and the rest. -/
def codePoint (cs : List Char) : Option (Char × List Char) := do
  let (high, r) ← unit4 cs
  if 0xD800 ≤ high && high < 0xDC00 then
    match r with
    | '\\' :: 'u' :: r' =>
      match unit4 r' with
      | some (low, r'') =>
        if 0xDC00 ≤ low && low < 0xE000 then
          return (Char.ofNat (0x10000 + (high - 0xD800) * 0x400 + (low - 0xDC00)), r'')
        else return (ofCode high, r)
      | none => return (ofCode high, r)
    | _ => return (ofCode high, r)
  else return (ofCode high, r)

/-- The character that a letter after a backslash stands for. -/
def escaped : Char → Option Char
  | '"' => some '"'
  | '\\' => some '\\'
  | '/' => some '/'
  | 'b' => some '\x08'
  | 'f' => some '\x0c'
  | 'n' => some '\n'
  | 'r' => some '\r'
  | 't' => some '\t'
  | _ => none

/-- The characters up to the closing quote and what follows it; `start` is the text from the opening
quote on and `acc` the characters so far, the last first. -/
def chars (start : List Char) : Nat → List Char → List Char → Except Stop (String × List Char)
  | 0, _, _ | _, _, [] => stopAt .unterminated start
  | _ + 1, acc, '"' :: r => .ok (String.ofList acc.reverse, r)
  | _ + 1, _, ['\\'] => stopAt .unterminated start
  | fuel + 1, acc, '\\' :: 'u' :: r =>
    match codePoint r with
    | some (c, r') => chars start fuel (c :: acc) r'
    | none => stopAt .unicodeEscape ('u' :: r)
  | fuel + 1, acc, '\\' :: c :: r =>
    match escaped c with
    | some e => chars start fuel (e :: acc) r
    | none => stopAt .escape ('\\' :: c :: r)
  | fuel + 1, acc, c :: r =>
    if c.toNat < 32 then stopAt .control (c :: r) else chars start fuel (c :: acc) r

/-- The text after an opening quote. -/
def string (cs : List Char) : Except Stop (String × List Char) :=
  chars ('"' :: cs) (cs.length + 1) [] cs

/-! ## Numbers -/

/-- Whether a character is an ASCII digit. -/
def isDigit (c : Char) : Bool := (Text.asciiDigit c).isSome

/-- The digits of a whole number: a single nought, or digits that start with another. -/
def wholeDigits (cs : List Char) : List Char × List Char :=
  match cs with
  | '0' :: r => (['0'], r)
  | _ => cs.span isDigit

/-- A fraction, if there is one: the point and at least one digit. -/
def fraction (cs : List Char) : List Char × List Char :=
  match cs with
  | '.' :: r =>
    let (ds, rest) := r.span isDigit
    if ds.isEmpty then ([], cs) else ('.' :: ds, rest)
  | _ => ([], cs)

/-- An exponent, if there is one: the letter, perhaps a sign, and at least one digit. -/
def exponent (cs : List Char) : List Char × List Char :=
  match cs with
  | e :: r =>
    if e == 'e' || e == 'E' then
      let (sign, r') := match r with
        | '-' :: r' => (['-'], r')
        | '+' :: r' => (['+'], r')
        | _ => ([], r)
      let (ds, rest) := r'.span isDigit
      if ds.isEmpty then ([], cs) else (e :: sign ++ ds, rest)
    else ([], cs)
  | [] => ([], cs)

/-- The number at the start of a text, if there is one. -/
def numberAt (cs : List Char) : Option (Except Stop (Value × List Char)) :=
  let (sign, r) := match cs with
    | '-' :: r => (['-'], r)
    | _ => ([], cs)
  let (whole, r) := wholeDigits r
  if whole.isEmpty then none
  else
    let (frac, r) := fraction r
    let (exp, r) := exponent r
    some <|
      if frac.isEmpty && exp.isEmpty then
        match Numeral.int 10 (String.ofList (sign ++ whole)) with
        | .ok i => .ok (.int i, r)
        | .error e => .error (.number e)
      else
        match Numeral.real (String.ofList (sign ++ whole ++ frac ++ exp)) with
        | .ok x => .ok (.float x, r)
        | .error e => .error (.number e)

/-! ## Values -/

/-- The words that are values. -/
def wordValues : List (List Char × Value) :=
  [("null".toList, .null), ("true".toList, .bool true), ("false".toList, .bool false),
   ("NaN".toList, .float .nan), ("Infinity".toList, .float (.infinite false)),
   ("-Infinity".toList, .float (.infinite true))]

/-- The word at the start of a text and what follows it. -/
def wordAt (cs : List Char) : Option (Value × List Char) :=
  (wordValues.find? fun (w, _) => w.isPrefixOf cs).map fun (w, v) => (v, cs.drop w.length)

/-- A value that holds no others, at the start of a text. -/
def atom (cs : List Char) : Except Stop (Value × List Char) :=
  match cs with
  | '"' :: r => (string r).map fun (s, r') => (.text s, r')
  | _ =>
    match wordAt cs with
    | some found => .ok found
    | none =>
      match numberAt cs with
      | some read => read
      | none => stopAt .value cs

mutual

/-- The value at the start of a text and what follows it. -/
def value : Nat → List Char → Except Stop (Value × List Char)
  | 0, cs => stopAt .value cs
  | fuel + 1, '[' :: r =>
    match skipSpace r with
    | ']' :: r' => .ok (.list [], r')
    | r' => (items fuel [] r').map fun (xs, rest) => (.list xs, rest)
  | fuel + 1, '\x7b' :: r =>
    match skipSpace r with
    | '\x7d' :: r' => .ok (.map [], r')
    | r' => (entries fuel [] r').map fun (es, rest) => (.map (Value.ofEntries es), rest)
  | _ + 1, cs => atom cs

/-- The items of a list up to its end, after those in `acc`, the last first. -/
def items : Nat → List Value → List Char → Except Stop (List Value × List Char)
  | 0, _, cs => stopAt .value cs
  | fuel + 1, acc, cs => do
    let (v, r) ← value fuel cs
    match skipSpace r with
    | ']' :: r' => return ((v :: acc).reverse, r')
    | ',' :: r' => items fuel (v :: acc) (skipSpace r')
    | r' => stopAt .comma r'

/-- The entries of a mapping up to its end, after those in `acc`, the last first. -/
def entries : Nat → List (Value × Value) → List Char →
    Except Stop (List (Value × Value) × List Char)
  | 0, _, cs => stopAt .value cs
  | fuel + 1, acc, cs =>
    match cs with
    | '"' :: r => do
      let (key, r) ← string r
      match skipSpace r with
      | ':' :: r' =>
        let (v, r) ← value fuel (skipSpace r')
        let acc := (.text key, v) :: acc
        match skipSpace r with
        | '\x7d' :: r' => return (acc.reverse, r')
        | ',' :: r' => entries fuel acc (skipSpace r')
        | r' => stopAt .comma r'
      | r' => stopAt .colon r'
    | _ => stopAt .propertyName cs

end

/-- The value of a whole text, or what stopped reading it. -/
def document (cs : List Char) : Except Stop Value := do
  if cs.head? == some '\ufeff' then stopAt .byteOrderMark cs
  let (v, r) ← value (2 * cs.length + 2) (skipSpace cs)
  let r := skipSpace r
  if r.isEmpty then return v else stopAt .extraData r

/-- The value of a text. -/
def read (s : String) : Except ReadError Value :=
  let cs := s.toList
  match document cs with
  | .ok v => .ok v
  | .error (.number e) => .error (.number e)
  | .error (.fault f left) =>
    let offset := cs.length - left
    let (line, column) := Text.position (cs.take offset)
    .error (.fault f line column offset)

end Json

end GraphPaths
