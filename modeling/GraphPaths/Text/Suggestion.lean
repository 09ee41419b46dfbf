import GraphPaths.Text.Case
import GraphPaths.Text.Digit

/-!
# Suggestions

A message about an unknown name proposes names that differ from it by few edits. `distance` counts
the insertions, deletions, substitutions and swaps of neighbours that lead from one word to another;
a change of letter case alone counts as one edit. `suggestions` keeps the names within two fifths of
the length, nearest first, and `didYouMean` puts them into words.
-/

namespace GraphPaths.Text

/-! ## Distance -/

/-- The next row of the table of distances: `c` is the letter of the row and `before` the one above,
`up` and `upUp` the rows above, and `left` the cell to the left. -/
def nextCells (c : Char) (before : Option Char) (left : Nat) :
    Option Char → List Char → List Nat → List Nat → List Nat
  | previous, d :: ds, diagonal :: above :: up, upUp =>
    let cost := if c == d then 0 else 1
    let cell := min (above + 1) (min (left + 1) (diagonal + cost))
    let swapped := before == some d && previous == some c
    let cell := match upUp with
      | far :: _ => if swapped then min cell (far + 1) else cell
      | [] => cell
    let far := if previous.isSome then upUp.drop 1 else upUp
    cell :: nextCells c before cell (some d) ds (above :: up) far
  | _, _, _, _ => []

/-- The last row of the table of distances. -/
def lastRow (word : List Char) : Nat → Option Char → List Nat → List Nat → List Char → List Nat
  | _, _, up, _, [] => up
  | i, before, up, upUp, c :: cs =>
    let row := (i + 1) :: nextCells c before (i + 1) none word up upUp
    lastRow word (i + 1) (some c) row up cs

/-- The number of edits between two words. -/
def editDistance (a b : List Char) : Nat :=
  ((lastRow b 0 none (List.range (b.length + 1)) [] a).getLast?).getD b.length

/-- The number of edits between two names. -/
def distance (name other : String) : Nat :=
  if name == other then 0
  else if lower name == lower other then 1
  else editDistance (lower other).toList (lower name).toList

/-! ## Order -/

/-- A name in runs of digits and of other characters, digits first read as a number. -/
def naturalParts (name : String) : List (List Char) :=
  let runs := name.toList.splitBy fun a b => (asciiDigit a).isSome == (asciiDigit b).isSome
  match runs with
  | (c :: _) :: _ => if (asciiDigit c).isSome then [] :: runs else runs
  | _ => runs

/-- The number of a run of digits. -/
def runNumber (cs : List Char) : Nat := cs.foldl (fun n c => 10 * n + (asciiDigit c).getD 0) 0

/-- Whether one name comes before another: runs of digits are compared by their number first. -/
def naturalBefore : Bool → List (List Char) → List (List Char) → Bool
  | _, [], rest => !rest.isEmpty
  | _, _ :: _, [] => false
  | digits, a :: as, b :: bs =>
    let smaller := decide (String.ofList a < String.ofList b)
    if a == b then naturalBefore (!digits) as bs
    else if digits then
      runNumber a < runNumber b || (runNumber a == runNumber b && smaller)
    else smaller

/-- Whether a name is not after another. -/
def naturalNotAfter (a b : String) : Bool :=
  !naturalBefore false (naturalParts b) (naturalParts a)

/-! ## Words -/

/-- The names near to a name, nearest first. -/
def suggestions (name : String) (options : List String) : List String :=
  let most := 2 * name.length / 5 + 1
  let near := (options.eraseDups.map fun o => (o, distance name o)).filter fun (_, n) => n ≤ most
  (near.mergeSort fun (a, m) (b, n) => m < n || (m == n && naturalNotAfter a b)).map Prod.fst

/-- Names in quotes, joined by commas and a last `or`. -/
def alternatives (names : List String) : String :=
  let quotedNames := names.map fun n => "'" ++ n ++ "'"
  match quotedNames.reverse with
  | [] => ""
  | [a] => a
  | [b, a] => a ++ " or " ++ b
  | last :: rest => ", ".intercalate rest.reverse ++ ", or " ++ last

/-- The question whether one of five names at the most was meant; `noun` is what they name. -/
def didYouMeanThe (noun : String) (names : List String) : String :=
  if names.isEmpty then ""
  else " Did you mean " ++ noun ++ alternatives (names.take 5) ++ "?"

/-- The question whether one of five names at the most was meant. -/
def didYouMean (names : List String) : String := didYouMeanThe "" names

end GraphPaths.Text
