import GraphPaths.Calendar
import GraphPaths.Number.Binary64

/-!
# Values

The data of option files, example values and documents. Besides the six kinds of JSON a value may
be a date, a moment, a run of bytes or a set, and a mapping may have keys of any kind, all of which
a YAML file can hold.

One list or mapping may stand in several places of a document. Such places hold a `shared` value
with the same label; `plain` forgets the labels, and only the YAML text of a document depends on
them. A value that contains itself has `again` in the inner place.
-/

namespace GraphPaths

/-- A value. -/
inductive Value where
  | null
  | bool (b : Bool)
  | int (i : Int)
  | float (x : Binary64)
  | text (s : String)
  | date (d : Date)
  | moment (t : DateTime)
  | bytes (b : List Nat)
  | list (items : List Value)
  | map (entries : List (Value × Value))
  | set (members : List Value)
  /-- A value that stands in every place with this label. -/
  | shared (label : Nat) (v : Value)
  /-- The enclosing value with this label. -/
  | again (label : Nat)
deriving Inhabited, Repr

namespace Value

/-! ## Values, written alike -/

mutual

/-- Whether two values are one, labels and all. -/
def beq : Value → Value → Bool
  | .null, .null => true
  | .bool a, .bool b => a == b
  | .int i, .int j => i == j
  | .float x, .float y => x == y
  | .text s, .text t => s == t
  | .date d, .date e => d == e
  | .moment t, .moment u => t == u
  | .bytes b, .bytes c => b == c
  | .list xs, .list ys => beqItems xs ys
  | .map es, .map fs => beqEntries es fs
  | .set xs, .set ys => beqItems xs ys
  | .shared l v, .shared m w => l == m && v.beq w
  | .again l, .again m => l == m
  | _, _ => false

/-- Whether two lists hold one value after another. -/
def beqItems : List Value → List Value → Bool
  | [], [] => true
  | x :: xs, y :: ys => x.beq y && beqItems xs ys
  | _, _ => false

/-- Whether two mappings hold one entry after another. -/
def beqEntries : List (Value × Value) → List (Value × Value) → Bool
  | [], [] => true
  | (k, v) :: es, (l, w) :: fs => k.beq l && v.beq w && beqEntries es fs
  | _, _ => false

end

instance : BEq Value := ⟨beq⟩

/-! ## Access -/

/-- A mapping whose keys are texts. -/
def record (fields : List (String × Value)) : Value :=
  .map (fields.map fun (k, v) => (.text k, v))

/-- A value without the label in front of it. -/
def bare : Value → Value
  | .shared _ v => bare v
  | v => v

/-- The entries of a mapping. -/
def entries? (v : Value) : Option (List (Value × Value)) :=
  match v.bare with
  | .map es => some es
  | _ => none

/-- The items of a list. -/
def items? (v : Value) : Option (List Value) :=
  match v.bare with
  | .list xs => some xs
  | _ => none

/-- The text that a value is. -/
def text? (v : Value) : Option String :=
  match v with
  | .text s => some s
  | _ => none

/-- The entries of a mapping all of whose keys are texts. -/
def fields? (v : Value) : Option (List (String × Value)) :=
  v.entries?.bind fun es => es.mapM fun (k, x) => k.text?.map (·, x)

/-- What a mapping holds under a text. -/
def get? (v : Value) (key : String) : Option Value :=
  v.entries?.bind fun es => (es.find? fun (k, _) => k.text? == some key).map Prod.snd

/-- The members of a value that has some: items, characters, keys. -/
def members? (v : Value) : Option (List Value) :=
  match v.bare with
  | .list xs | .set xs => some xs
  | .text s => some (s.toList.map fun c => .text (String.ofList [c]))
  | .map es => some (es.map Prod.fst)
  | .bytes bs => some (bs.map fun (b : Nat) => .int b)
  | _ => none

/-- Whether a value counts as absent: null, false, nought, or empty. -/
def isEmpty (v : Value) : Bool :=
  match v.bare with
  | .null => true
  | .bool b => !b
  | .int i => i == 0
  | .float x => x.isZero
  | .text s => s.isEmpty
  | .bytes b => b.isEmpty
  | .list xs => xs.isEmpty
  | .map es => es.isEmpty
  | .set xs => xs.isEmpty
  | _ => false

/-- The name of the kind of a value. -/
def kindName (v : Value) : String :=
  match v.bare with
  | .null => "NoneType"
  | .bool _ => "bool"
  | .int _ => "int"
  | .float _ => "float"
  | .text _ => "str"
  | .date _ => "date"
  | .moment _ => "datetime"
  | .bytes _ => "bytes"
  | .list _ => "list"
  | .map _ => "dict"
  | .set _ => "set"
  | .shared .. => "object"
  | .again _ => "dict"

/-- The name of the type of a value, with that of its module unless it is built in. -/
def typeName (v : Value) : String :=
  match v.bare with
  | .date _ | .moment _ => "datetime." ++ v.kindName
  | _ => v.kindName

/-! ## Labels -/

mutual

/-- The value without labels. -/
def plain : Value → Value
  | .list xs => .list (plainItems xs)
  | .map es => .map (plainEntries es)
  | .set xs => .set (plainItems xs)
  | .shared _ v => v.plain
  | v => v

/-- The items without labels. -/
def plainItems : List Value → List Value
  | [] => []
  | x :: xs => x.plain :: plainItems xs

/-- The entries without labels. -/
def plainEntries : List (Value × Value) → List (Value × Value)
  | [] => []
  | (k, v) :: es => (k.plain, v.plain) :: plainEntries es

end

mutual

/-- The value with every label raised by `n`. -/
def raise (n : Nat) : Value → Value
  | .list xs => .list (raiseItems n xs)
  | .map es => .map (raiseEntries n es)
  | .set xs => .set (raiseItems n xs)
  | .shared l v => .shared (n + l) (v.raise n)
  | .again l => .again (n + l)
  | v => v

/-- The items with every label raised. -/
def raiseItems (n : Nat) : List Value → List Value
  | [] => []
  | x :: xs => x.raise n :: raiseItems n xs

/-- The entries with every label raised. -/
def raiseEntries (n : Nat) : List (Value × Value) → List (Value × Value)
  | [] => []
  | (k, v) :: es => (k.raise n, v.raise n) :: raiseEntries n es

end

mutual

/-- A bound above all labels of a value. -/
def labelBound : Value → Nat
  | .list xs => labelBoundItems xs
  | .map es => labelBoundEntries es
  | .set xs => labelBoundItems xs
  | .shared l v => max (l + 1) v.labelBound
  | .again l => l + 1
  | _ => 0

/-- A bound above all labels of the items. -/
def labelBoundItems : List Value → Nat
  | [] => 0
  | x :: xs => max x.labelBound (labelBoundItems xs)

/-- A bound above all labels of the entries. -/
def labelBoundEntries : List (Value × Value) → Nat
  | [] => 0
  | (k, v) :: es => max (max k.labelBound v.labelBound) (labelBoundEntries es)

end

/-- Whether the places of a value show in a YAML text that they hold the same one. -/
def canShare : Value → Bool
  | .list _ | .map _ | .set _ | .date _ | .moment _ => true
  | _ => false

/-- The values of some fields, each labelled, with labels from `next` on, so that all its places
in a document are known to hold the same one; and the first label that is still free. -/
def label (next : Nat) : List (String × Value) → List (String × Value) × Nat
  | [] => ([], next)
  | (k, v) :: fs =>
    if v.canShare then
      let (rest, free) := label (next + 1) fs
      ((k, .shared next v) :: rest, free)
    else
      let (rest, free) := label next fs
      ((k, v) :: rest, free)

end Value

end GraphPaths
