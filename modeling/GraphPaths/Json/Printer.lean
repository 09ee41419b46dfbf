import GraphPaths.Number.Numeral
import GraphPaths.Number.Shortest
import GraphPaths.Value

/-!
# Writing JSON

A value is written over several lines, each level two spaces further in, with every character
beyond ASCII escaped. Numbers that JSON has no form for are written `NaN` and `Infinity`, and a key
that is no text is written as one. Dates, moments, bytes and sets cannot be written, nor can a
value that contains itself.
-/

namespace GraphPaths

namespace Json

/-- Why a value cannot be written. -/
inductive WriteError where
  /-- A value of this kind has no form in JSON. -/
  | value (kind : String)
  /-- A key of this kind cannot be made a text. -/
  | key (kind : String)
  /-- An integer too long to be written. -/
  | number (error : NumeralError)
  /-- A value contains itself. -/
  | circular
deriving Repr, DecidableEq

/-- The message of an error. -/
def WriteError.message : WriteError → String
  | .value kind => s!"Object of type {kind} is not JSON serializable"
  | .key kind => s!"keys must be str, int, float, bool or None, not {kind}"
  | .number e => e.message
  | .circular => "Circular reference detected"

/-! ## Scalars -/

/-- The escape of a code unit of sixteen bits. -/
def unitEscape (n : Nat) : List Char := '\\' :: 'u' :: Text.hexPadded false 4 n

/-- A character inside quotes. -/
def escapeChar (c : Char) : List Char :=
  if c == '"' then ['\\', '"']
  else if c == '\\' then ['\\', '\\']
  else if c == '\n' then ['\\', 'n']
  else if c == '\r' then ['\\', 'r']
  else if c == '\t' then ['\\', 't']
  else if c == '\x08' then ['\\', 'b']
  else if c == '\x0c' then ['\\', 'f']
  else if ' ' ≤ c && c ≤ '~' then [c]
  else if c.toNat < 0x10000 then unitEscape c.toNat
  else
    let n := c.toNat - 0x10000
    unitEscape (0xD800 + n / 0x400) ++ unitEscape (0xDC00 + n % 0x400)

/-- A text in quotes. -/
def quote (s : String) : String :=
  String.ofList ('"' :: s.toList.flatMap escapeChar ++ ['"'])

/-- An integer. -/
def integer (i : Int) : Except WriteError String := (Numeral.ofInt i).mapError .number

/-- A number. -/
def number : Binary64 → String
  | .nan => "NaN"
  | .infinite negative => if negative then "-Infinity" else "Infinity"
  | x => x.text

/-- A key as a text. -/
def keyText (k : Value) : Except WriteError String :=
  match k.bare with
  | .text s => .ok s
  | .float x => .ok (number x)
  | .bool b => .ok (if b then "true" else "false")
  | .null => .ok "null"
  | .int i => integer i
  | v => .error (.key v.kindName)

/-! ## Values -/

/-- The start of a line at a level. -/
def newLine (level : Nat) : String := "\n" ++ String.ofList (List.replicate (2 * level) ' ')

/-- Parts of a list or mapping between brackets, each on a line of its own. -/
def bracket (opening closing : String) (level : Nat) (parts : List String) : String :=
  opening ++ newLine (level + 1) ++ ("," ++ newLine (level + 1)).intercalate parts
    ++ newLine level ++ closing

mutual

/-- A value whose first line stands at a level. -/
def write (level : Nat) : Value → Except WriteError String
  | .null => .ok "null"
  | .bool b => .ok (if b then "true" else "false")
  | .int i => integer i
  | .float x => .ok (number x)
  | .text s => .ok (quote s)
  | .list [] => .ok "[]"
  | .list (x :: xs) => do
    let first ← write (level + 1) x
    let rest ← writeItems (level + 1) xs
    return bracket "[" "]" level (first :: rest)
  | .map es => do
    let parts ← writeEntries (level + 1) es
    return if parts.isEmpty then "\x7b\x7d" else bracket "\x7b" "\x7d" level parts
  | .shared _ v => write level v
  | .again _ => .error .circular
  | .date _ => .error (.value "date")
  | .moment _ => .error (.value "datetime")
  | .bytes _ => .error (.value "bytes")
  | .set _ => .error (.value "set")

/-- The items of a list. -/
def writeItems (level : Nat) : List Value → Except WriteError (List String)
  | [] => .ok []
  | x :: xs => do
    let first ← write level x
    let rest ← writeItems level xs
    return first :: rest

/-- The entries of a mapping. -/
def writeEntries (level : Nat) : List (Value × Value) → Except WriteError (List String)
  | [] => .ok []
  | (k, v) :: es => do
    let key ← keyText k
    let first ← write level v
    let rest ← writeEntries level es
    return (quote key ++ ": " ++ first) :: rest

end

/-- The text of a value. -/
def text (v : Value) : Except WriteError String := write 0 v

end Json

end GraphPaths
