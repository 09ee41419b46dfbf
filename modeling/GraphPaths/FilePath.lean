import GraphPaths.Text.Case
import GraphPaths.Text.Line

/-!
# File paths

A path is a list of names below the working directory or below a root. Empty names and the name `.`
do not count, so that `./a//b/` is `a/b`, while `..` stays as it is written. Paths are ordered by their
names, one after the other (`FilePath.le`).
-/

namespace GraphPaths

/-- A path to a file or a directory. -/
structure FilePath where
  /-- The slashes in front of the first name; empty below the working directory. -/
  root : String
  names : List String
deriving Repr, DecidableEq, Inhabited

namespace FilePath

/-- The root that a text names; two slashes are a root of their own, more than two are one. -/
def rootOf (cs : List Char) : String :=
  match (cs.takeWhile (· == '/')).length with
  | 0 => ""
  | 2 => "//"
  | _ => "/"

/-- The path that a text is. -/
def parse (text : String) : FilePath :=
  let cs := text.toList
  ⟨rootOf cs, ((Text.splitAt '/' cs).map String.ofList).filter fun n => n != "" && n != "."⟩

/-- The text of a path. -/
def text (p : FilePath) : String :=
  if p.root == "" && p.names.isEmpty then "." else p.root ++ "/".intercalate p.names

/-- The path of something in a directory. -/
def child (p : FilePath) (name : String) : FilePath := { p with names := p.names ++ [name] }

/-- The path of something deeper in a directory. -/
def below (p : FilePath) (names : List String) : FilePath := { p with names := p.names ++ names }

/-- The directory that a path names something in. -/
def parent (p : FilePath) : FilePath := { p with names := p.names.dropLast }

/-- The last name of a path. -/
def name (p : FilePath) : String := p.names.getLast?.getD ""

/-- The part of a name from its last dot on, unless the dot is its first or last character. -/
def suffixOf (name : String) : String :=
  let cs := name.toList
  let tail := (cs.reverse.takeWhile (· != '.')).reverse
  if cs.contains '.' && !tail.isEmpty && tail.length + 1 < cs.length then
    String.ofList ('.' :: tail)
  else ""

/-- The part of the last name from its last dot on, in small letters. -/
def suffix (p : FilePath) : String := Text.lower (suffixOf p.name)

/-- The names that order paths. -/
def orderKey (p : FilePath) : List String := if p.root == "" then p.names else p.root :: p.names

/-- Whether names come before others or are the same. -/
def namesLe : List String → List String → Bool
  | [], _ => true
  | _ :: _, [] => false
  | a :: as, b :: bs => if a == b then namesLe as bs else decide (a < b)

/-- Whether a path comes before another or is the same. -/
def le (p q : FilePath) : Bool := namesLe p.orderKey q.orderKey

/-- The path without `..`, each of which takes the name before it away. -/
def collapse (p : FilePath) : FilePath :=
  { p with names := (p.names.foldl (fun acc n =>
      if n == ".." then acc.tail else n :: acc) []).reverse }

end FilePath

end GraphPaths
