import GraphPaths.Number.Shortest
import GraphPaths.Text.Quoted
import GraphPaths.Value

/-!
# The text of a value

How a value stands inside a message. `shown` is the text of a value on its own, `Value.inner` its
text inside a list or mapping, where texts are quoted.
-/

namespace GraphPaths

/-- A byte inside quotes. -/
def quotedByte (q : Char) (b : Nat) : List Char :=
  let c := Char.ofNat b
  if c == q || c == '\\' then ['\\', c]
  else if c == '\t' then ['\\', 't']
  else if c == '\n' then ['\\', 'n']
  else if c == '\r' then ['\\', 'r']
  else if 32 ≤ b && b < 127 then [c]
  else '\\' :: 'x' :: Text.hexPadded false 2 b

/-- A run of bytes in quotes, after the letter `b`. -/
def quotedBytes (bs : List Nat) : String :=
  let q := if bs.contains '\''.toNat && !bs.contains '"'.toNat then '"' else '\''
  String.ofList ('b' :: q :: bs.flatMap (quotedByte q) ++ [q])

/-- A date with the name of its parts' maker. -/
def Date.inner (d : Date) : String :=
  "datetime.date(" ++ ", ".intercalate ([d.year, d.month, d.day].map Text.decimal) ++ ")"

/-- A moment with the name of its parts' maker. -/
def DateTime.inner (t : DateTime) : String :=
  let parts := [t.date.year, t.date.month, t.date.day, t.hour, t.minute]
  let small := if t.microsecond != 0 then [t.second, t.microsecond]
    else if t.second != 0 then [t.second] else []
  let zone := match t.offset with
    | none => []
    | some 0 => ["tzinfo=datetime.timezone.utc"]
    | some s => ["tzinfo=datetime.timezone(" ++ spanText s ++ ")"]
  "datetime.datetime(" ++ ", ".intercalate ((parts ++ small).map Text.decimal ++ zone) ++ ")"

namespace Value

mutual

/-- The text of a value inside another. -/
def inner : Value → String
  | .null => "None"
  | .bool b => if b then "True" else "False"
  | .int i => Text.decimalInt i
  | .float x => x.text
  | .text s => Text.quoted s
  | .date d => d.inner
  | .moment t => t.inner
  | .bytes b => quotedBytes b
  | .list xs => "[" ++ ", ".intercalate (innerItems xs) ++ "]"
  | .map es => "\x7b" ++ ", ".intercalate (innerEntries es) ++ "\x7d"
  | .set [] => "set()"
  | .set (x :: xs) => "\x7b" ++ ", ".intercalate (x.inner :: innerItems xs) ++ "\x7d"
  | .shared _ v => v.inner
  | .again _ => "..."

/-- The texts of the items of a list. -/
def innerItems : List Value → List String
  | [] => []
  | x :: xs => x.inner :: innerItems xs

/-- The texts of the entries of a mapping. -/
def innerEntries : List (Value × Value) → List String
  | [] => []
  | (k, v) :: es => (k.inner ++ ": " ++ v.inner) :: innerEntries es

end

/-- The text of a value on its own. -/
def shown (v : Value) : String :=
  match v.bare with
  | .text s => s
  | .date d => d.iso
  | .moment t => t.iso " "
  | v => v.inner

end Value

end GraphPaths
