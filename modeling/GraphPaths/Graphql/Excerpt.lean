import GraphPaths.Text.Digit
import GraphPaths.Text.Line

/-!
# Excerpts

An error about a place of a document shows the line around it, with a mark under the column. A very
long line is shown in pieces of eighty characters, up to the one after the mark.
-/

namespace GraphPaths

namespace Graphql

/-- Lines with what stands in front of them, all fronts as wide as the widest. -/
def withFronts (rows : List (String × String)) : String :=
  let width := (rows.map fun (front, _) => front.length).max?.getD 0
  "\n".intercalate (rows.map fun (front, line) =>
    String.ofList (List.replicate (width - front.length) ' ') ++ front
      ++ (if line.isEmpty then "" else " " ++ line))

/-- A text in pieces of some length. -/
def pieces (size : Nat) : Nat → List Char → List String
  | 0, _ => []
  | fuel + 1, cs =>
    if cs.isEmpty then [] else String.ofList (cs.take size) :: pieces size fuel (cs.drop size)

/-- A mark in a column. -/
def markAt (column : Nat) : String := String.ofList (List.replicate (column - 1) ' ' ++ ['^'])

/-- The lines around a place of a text, told by the length of the text from there on. -/
def excerpt (text : List Char) (left : Nat) : String :=
  let (line, column) := Text.position (Text.normalizeEnds (text.take (text.length - left)))
  let lines := (Text.splitAt '\n' (Text.normalizeEnds text)).map String.ofList
  let at_ := lines.getD (line - 1) ""
  let number := Text.decimal
  let head := "GraphQL request:" ++ number line ++ ":" ++ number column ++ "\n"
  if 120 < at_.length then
    let parts := pieces 80 at_.length at_.toList
    let index := (column - 1) / 80
    let between := (parts.drop 1).take index
    head ++ withFronts ((number line ++ " |", parts.headD "")
      :: between.map (fun p => ("|", p)) ++ [("|", markAt ((column - 1) % 80 + 1))]
      ++ (if index + 1 < parts.length then [("|", parts.getD (index + 1) "")] else []))
  else
    let before := if 1 < line then [(number (line - 1) ++ " |", lines.getD (line - 2) "")] else []
    let after := if line < lines.length then [(number (line + 1) ++ " |", lines.getD line "")]
      else []
    head ++ withFronts (before ++ [(number line ++ " |", at_), ("|", markAt column)] ++ after)

end Graphql

end GraphPaths
