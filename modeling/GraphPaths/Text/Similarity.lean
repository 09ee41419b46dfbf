/-!
# Similar words

How much two words have in common: the longest run of letters that stands in both is matched, and then
the words left of it and those right of it are compared in the same way. Words are near when at least
three fifths of their letters are matched, and `nearest` gives the words that are nearest to one.
-/

namespace GraphPaths.Text

/-! ## Matched letters -/

/-- The length of the longest start that two words share. -/
def sharedStart : List Char → List Char → Nat
  | a :: as, b :: bs => if a == b then sharedStart as bs + 1 else 0
  | _, _ => 0

/-- A run of letters that stands in two words. -/
structure SharedRun where
  /-- Where it starts in the first word. -/
  first : Nat
  /-- Where it starts in the second word. -/
  second : Nat
  length : Nat
deriving Repr, DecidableEq

/-- The longest run that two words share; of several, the one that starts first in the first word, and
of these the first in the second. -/
def longestRun (a b : List Char) : SharedRun :=
  let runs := (List.range a.length).flatMap fun i =>
    (List.range b.length).map fun j => SharedRun.mk i j (sharedStart (a.drop i) (b.drop j))
  runs.foldl (fun best run => if best.length < run.length then run else best) ⟨0, 0, 0⟩

/-- The number of letters that two words have in common. -/
def matched (a b : List Char) : Nat :=
  match longestRun a b with
  | ⟨i, j, n⟩ =>
    if _ : 0 < n ∧ i < a.length then
      n + matched (a.take i) (b.take j) + matched (a.drop (i + n)) (b.drop (j + n))
    else 0
termination_by a.length
decreasing_by
  · simp only [List.length_take]
    omega
  · simp only [List.length_drop]
    omega

/-! ## Nearness -/

/-- How near a word is to another: the letters matched, out of half of all their letters. -/
structure Nearness where
  matched : Nat
  letters : Nat
deriving Repr, DecidableEq

/-- How near a name is to a word. -/
def nearness (name word : String) : Nearness :=
  ⟨matched name.toList word.toList, name.length + word.length⟩

/-- Whether at least three fifths of the letters are matched. -/
def Nearness.isNear (n : Nearness) : Bool := 3 * n.letters ≤ 10 * n.matched

/-- Whether one nearness is greater than another. -/
def Nearness.exceeds (m n : Nearness) : Bool := n.matched * m.letters < m.matched * n.letters

/-- The three names at the most that are nearest to a word, in their order. -/
def nearest (word : String) (names : List String) : List String :=
  let near := (names.map fun name => (name, nearness name word)).filter fun (_, n) => n.isNear
  let ranked := near.mergeSort fun (a, m) (b, n) => m.exceeds n || (!n.exceeds m && decide (b ≤ a))
  ((ranked.take 3).map Prod.fst).mergeSort fun a b => decide (a ≤ b)

end GraphPaths.Text
