/-!
# The pen

A pen writes a YAML text from left to right and knows where it stands: the column, whether a blank
was written last, and whether the line so far holds nothing but indentation and indicators that
further indicators may follow.
-/

namespace GraphPaths

namespace Yaml

/-- A text under way. -/
structure Pen where
  written : String
  column : Nat
  /-- Whether the next token needs no blank in front. -/
  spaced : Bool
  /-- Whether the next token may follow in this line as if it started it. -/
  fresh : Bool
  /-- Whether the text ends in a bare scalar that a later line could continue. -/
  openEnded : Bool
deriving Repr, DecidableEq

namespace Pen

/-- A pen at the start of a text. -/
def start : Pen := ⟨"", 0, true, true, false⟩

/-- The column where a text is folded. -/
def width : Nat := 80

/-- Characters written as they are. -/
def write (p : Pen) (cs : List Char) : Pen :=
  { p with written := p.written ++ String.ofList cs, column := p.column + cs.length }

/-- A line ended by a character. -/
def lineBreak (p : Pen) (c : Char) : Pen :=
  { p with written := p.written.push c, column := 0, spaced := true, fresh := true }

/-- The pen at an indentation, in a new line unless the line is still empty up to there. -/
def indent (p : Pen) (n : Nat) : Pen :=
  let p :=
    if !p.fresh || n < p.column || (p.column == n && !p.spaced) then p.lineBreak '\n' else p
  if p.column < n then
    { p.write (List.replicate (n - p.column) ' ') with spaced := true }
  else p

/-- An indicator, with a blank in front where one is needed; `keep` says that further indicators may
follow as at the start of the line. -/
def mark (p : Pen) (indicator : String) (needSpace keep : Bool) : Pen :=
  let cs := indicator.toList
  let p := p.write (if p.spaced || !needSpace then cs else ' ' :: cs)
  { p with spaced := false, fresh := p.fresh && keep, openEnded := false }

/-- The pen after a scalar's text in a line: no blank was written and the line is not empty. -/
def settle (p : Pen) : Pen := { p with spaced := false, fresh := false }

end Pen

end Yaml

end GraphPaths
