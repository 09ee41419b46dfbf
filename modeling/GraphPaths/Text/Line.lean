/-!
# Lines

A file's text has its line ends made one: a carriage return, with a line feed after it or not,
counts as a line feed (`normalizeEnds`). `position` finds the line and column of an offset, both
counted from one. `splitAt` parts a text at a character.
-/

namespace GraphPaths.Text

/-- A text whose line ends are all line feeds. -/
def normalizeEnds : List Char → List Char
  | [] => []
  | '\r' :: '\n' :: r => '\n' :: normalizeEnds r
  | c :: r => (if c == '\r' then '\n' else c) :: normalizeEnds r

/-- The line and the column of the character after `before`, lines ending in a line feed. -/
def position (before : List Char) : Nat × Nat :=
  (before.count '\n' + 1, (before.reverse.takeWhile (· != '\n')).length + 1)

/-- The parts of a text between the occurrences of a character. -/
def splitAt (sep : Char) : List Char → List (List Char)
  | [] => [[]]
  | c :: r =>
    match splitAt sep r with
    | [] => [[c]]
    | p :: ps => if c == sep then [] :: p :: ps else (c :: p) :: ps

end GraphPaths.Text
