import GraphPaths.Graphql.Document
import GraphPaths.Text.Digit
import GraphPaths.Text.Line

/-!
# Values in the notation of the language

`Literal.text` writes a value as messages show it. Lists and objects stand in one line when it is no
longer than `lineLimit`; longer ones have a line for each member, indented by two blanks. A block text
stays one, with its quotes in lines of their own where that keeps it apart from them.
-/

namespace GraphPaths

namespace Graphql

/-! ## Texts -/

/-- A character of a text between double quotes. -/
def quotedChar (c : Char) : List Char :=
  if c == '"' || c == '\\' then ['\\', c]
  else if c == '\x08' then ['\\', 'b']
  else if c == '\x0c' then ['\\', 'f']
  else if c == '\n' then ['\\', 'n']
  else if c == '\r' then ['\\', 'r']
  else if c == '\t' then ['\\', 't']
  else if c.toNat < 32 || (127 ≤ c.toNat && c.toNat < 160) then
    '\\' :: 'u' :: Text.hexPadded true 4 c.toNat
  else [c]

/-- A text between double quotes. -/
def quotedText (s : String) : String :=
  String.ofList ('"' :: s.toList.flatMap quotedChar ++ ['"'])

/-- A text in which three double quotes do not end a block. -/
def escapeBlock : List Char → List Char
  | '"' :: '"' :: '"' :: r => '\\' :: '"' :: '"' :: '"' :: escapeBlock r
  | c :: r => c :: escapeBlock r
  | [] => []

/-- Whether a line starts with a blank or is empty. -/
def startsBlank (line : List Char) : Bool :=
  match line with
  | [] => true
  | c :: _ => c == ' ' || c == '\t'

/-- A text as a block between three double quotes. -/
def blockText (s : String) : String :=
  let cs := s.toList
  let escaped := escapeBlock cs
  let lines := Text.splitAt '\n' escaped
  let single := lines.length == 1
  let allIndented := 1 < lines.length && (lines.drop 1).all startsBlank
  let endsInQuotes := "\\\"\"\"".toList.isSuffixOf escaped
  let endsBare := (cs.getLast? == some '"' && !endsInQuotes) || cs.getLast? == some '\\'
  let spread := !single || 70 < cs.length || endsBare || endsInQuotes
  let keepsFirst := single && !cs.isEmpty && startsBlank cs
  let before := if (spread && !keepsFirst) || allIndented then ['\n'] else []
  let after := if spread then ['\n'] else []
  let quotes := ['"', '"', '"']
  String.ofList (quotes ++ before ++ escaped ++ after ++ quotes)

/-! ## Values -/

/-- The length up to which a list or an object stands in one line. -/
def lineLimit : Nat := 80

/-- A text with every line indented. -/
def indented (s : String) : String :=
  String.ofList (' ' :: ' ' :: s.toList.flatMap fun c => if c == '\n' then ['\n', ' ', ' '] else [c])

/-- Members in one line between brackets, or with a line for each. -/
def bracketed (opening closing gap : String) (members : List String) : String :=
  let line := opening ++ gap ++ ", ".intercalate members ++ gap ++ closing
  if lineLimit < line.length then
    opening ++ "\n" ++ indented ("\n".intercalate members) ++ "\n" ++ closing
  else line

mutual

/-- The text of a value. -/
def Literal.text : Literal → String
  | .variable name => "$" ++ name
  | .int s | .float s => s
  | .string s => quotedText s
  | .blockString s => blockText s
  | .boolean b => if b then "true" else "false"
  | .null => "null"
  | .enumeration name => name
  | .list xs => bracketed "[" "]" "" (literalTexts xs)
  | .object fields => bracketed "\x7b" "\x7d" " " (fieldTexts fields)

/-- The texts of the items of a list. -/
def literalTexts : List Literal → List String
  | [] => []
  | x :: xs => x.text :: literalTexts xs

/-- The texts of the fields of an object. -/
def fieldTexts : List (String × Literal) → List String
  | [] => []
  | (k, v) :: fs => (k ++ ": " ++ v.text) :: fieldTexts fs

end

end Graphql

end GraphPaths
