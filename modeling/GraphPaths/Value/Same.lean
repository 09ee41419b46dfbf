import GraphPaths.Value

/-!
# Equal values

Two values are the same when they hold equal data: numbers by their amount whatever their kind,
`true` and `false` counting as one and nought, mappings and sets without regard to order. The members
of a set stand in the order that `before` tells.
-/

namespace GraphPaths

namespace Value

/-- The integer that a truth value or an integer counts as. -/
def asInt? : Value → Option Int
  | .bool b => some (if b then 1 else 0)
  | .int i => some i
  | _ => none

/-- Whether two values that hold no others are equal. -/
def sameAtom : Value → Value → Bool
  | .null, .null => true
  | .text a, .text b => a == b
  | .date a, .date b => a == b
  | .moment a, .moment b => a.same b
  | .bytes a, .bytes b => a == b
  | .float a, .float b => a.same b
  | .float a, v => (v.asInt?.map a.sameInt).getD false
  | v, .float b => (v.asInt?.map b.sameInt).getD false
  | a, b => match a.asInt?, b.asInt? with
    | some i, some j => i == j
    | _, _ => false

mutual

/-- Whether two values are equal. -/
def same : Value → Value → Bool
  | .shared _ v, w => v.same w
  | .list xs, w => match w.bare with
    | .list ys => sameItems xs ys
    | _ => false
  | .map es, w => match w.bare with
    | .map fs => es.length == fs.length && sameEntries es fs
    | _ => false
  | .set xs, w => match w.bare with
    | .set ys => xs.length == ys.length && sameMembers xs ys
    | _ => false
  | v, w => sameAtom v w.bare

/-- Whether two lists hold equal items in the same order. -/
def sameItems : List Value → List Value → Bool
  | [], [] => true
  | x :: xs, y :: ys => x.same y && sameItems xs ys
  | _, _ => false

/-- Whether each entry has its equal among others. -/
def sameEntries : List (Value × Value) → List (Value × Value) → Bool
  | [], _ => true
  | (k, v) :: es, fs => (fs.any fun (k', v') => k.same k' && v.same v') && sameEntries es fs

/-- Whether each member has its equal among others. -/
def sameMembers : List Value → List Value → Bool
  | [], _ => true
  | x :: xs, ys => (ys.any fun y => x.same y) && sameMembers xs ys

end

/-- Whether two keys are one: they are equal, or both are the number `nan` with the same label or
both without one. -/
def sameKey (a b : Value) : Bool := a.same b || a == b

/-- Entries with a value put under a key: in the place of that key, or at the end. -/
def put (key v : Value) : List (Value × Value) → List (Value × Value)
  | [] => [(key, v)]
  | (k, w) :: es => if key.sameKey k then (k, v) :: es else (k, w) :: put key v es

/-- Entries in order, a later one for the same key taking the place of the earlier. -/
def ofEntries (es : List (Value × Value)) : List (Value × Value) :=
  es.foldl (fun acc (k, v) => put k v acc) []

/-- Values without those that are one with an earlier one. -/
def firsts (xs : List Value) : List Value :=
  xs.foldl (fun acc x => if acc.any x.sameKey then acc else acc ++ [x]) []

/-! ## The order of members -/

/-- A finite number as a quotient. -/
def quotient? : Value → Option (Int × Nat)
  | .float (.finite s m e) =>
    let (a, b) := Binary64.ratio m e
    some (Binary64.signed s a, b)
  | .bool b => some (if b then 1 else 0, 1)
  | .int i => some (i, 1)
  | _ => none

/-- The text by which a value that is no number is put in order. -/
def orderText? : Value → Option String
  | .text s => some s
  | .date d => some d.iso
  | .moment t => some (t.iso " ")
  | _ => none

/-- Whether one value comes before another: numbers by their amount come first, then texts and days
by their characters. -/
def before (a b : Value) : Bool :=
  match a.bare.quotient?, b.bare.quotient? with
  | some (m, k), some (n, l) => m * l < n * k
  | some _, none => true
  | none, some _ => false
  | none, none =>
    match a.bare.orderText?, b.bare.orderText? with
    | some s, some t => decide (s < t)
    | some _, none => true
    | none, _ => false

/-- The members of a set, each once, in order. -/
def ofMembers (xs : List Value) : List Value :=
  (firsts xs).mergeSort fun a b => !b.before a

end Value

end GraphPaths
