import GraphPaths.Json.Printer

/-!
# Console output

What is shown to a user besides log records: lines with marks for style in square brackets, rules
across the screen, and JSON. `escapeMarkup` keeps text from being taken for such marks.
-/

namespace GraphPaths

/-- A piece of output. -/
inductive Shown where
  /-- A line with marks. -/
  | line (markup : String)
  /-- A rule with a title. -/
  | rule (title : String)
  /-- JSON. -/
  | json (text : String)
deriving Repr, DecidableEq, Inhabited

namespace Shown

/-- Something has been done. -/
def success (message : String) : Shown := .line ("[green]✓[/green] " ++ message)

/-- A hint. -/
def hint (message : String) : Shown := .line ("[dim]" ++ message ++ "[/dim]")

/-- A rule with a title in a style. -/
def titled (title style : String) : Shown := .rule ("[" ++ style ++ "]" ++ title)

/-- A value with its name in a style. -/
def keyValue (key value style : String) : Shown :=
  .line ("[" ++ style ++ "]" ++ key ++ ":[/" ++ style ++ "] " ++ value)

/-- An item after a mark. -/
def item (text mark : String) : Shown := .line (mark ++ " " ++ text)

/-- A value as JSON. -/
def data (v : Value) : Except Json.WriteError Shown := (Json.text v).map .json

end Shown

/-- The style of titles. -/
def titleStyle : String := "bold blue"

/-! ## Escapes -/

/-- Whether a style mark may start with a character. -/
def startsMark (c : Char) : Bool := ('a' ≤ c && c ≤ 'z') || c == '#' || c == '/' || c == '@'

/-- The style mark after an opening bracket, up to its closing bracket, and the rest. -/
def markBody : List Char → Option (List Char × List Char)
  | [] => none
  | c :: r =>
    if c == ']' then some ([c], r)
    else if c == '[' then none
    else (markBody r).map fun (body, rest) => (c :: body, rest)

/-- The style mark at the start of a text, and the rest. -/
def markAtStart (cs : List Char) : Option (List Char × List Char) :=
  match cs with
  | '[' :: c :: r =>
    if startsMark c then (markBody r).map fun (body, rest) => ('[' :: c :: body, rest) else none
  | _ => none

/-- A text in which no style mark counts: the backslashes in front of one are doubled and one more
is added. `slashes` are the backslashes just read. -/
def escapeMarks : Nat → Nat → List Char → List Char
  | 0, slashes, cs => List.replicate slashes '\\' ++ cs
  | _, slashes, [] => List.replicate slashes '\\'
  | fuel + 1, slashes, c :: r =>
    if c == '\\' then escapeMarks fuel (slashes + 1) r
    else match markAtStart (c :: r) with
      | some (mark, rest) =>
        List.replicate (2 * slashes + 1) '\\' ++ mark ++ escapeMarks fuel 0 rest
      | none => List.replicate slashes '\\' ++ c :: escapeMarks fuel 0 r

/-- A text shown as it is; a single backslash at its end is doubled. -/
def escapeMarkup (text : String) : String :=
  let cs := escapeMarks (text.length + 1) 0 text.toList
  let last := (cs.reverse.takeWhile (· == '\\')).length
  String.ofList (if last == 1 then cs ++ ['\\'] else cs)

end GraphPaths
