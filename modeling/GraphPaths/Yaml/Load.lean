import GraphPaths.Text.Base64
import GraphPaths.Text.Case
import GraphPaths.Value.Same
import GraphPaths.Yaml.Node

/-!
# From nodes to values

`Yaml.load` gives the value of a text. A mapping takes the entries of the mappings under its key `<<`
in front of its own, and of two equal keys the last value stands in the first one's place. A list, a
mapping, a set or a mapping's key must have the kind of node its tag asks for, and no key is a list, a
mapping or a set.

The faults of outer collections come before those of inner ones, and among equally deep ones the first
in the text comes first. Where the text has anchors, every list, mapping, set and date is labelled with
the number of its node.
-/

namespace GraphPaths

namespace Yaml

/-! ## Scalars -/

/-- A text without low lines. -/
def dropLowLines (s : String) : List Char := s.toList.filter (· != '_')

/-- The sign of a number and what follows it. -/
def splitSign (cs : List Char) : Except LoadError (Bool × List Char) :=
  match cs with
  | [] => .error .emptyNumber
  | '-' :: r => .ok (true, r)
  | '+' :: r => .ok (false, r)
  | _ => .ok (false, cs)

/-- The integer of a text. -/
def numeral (base : Nat) (cs : List Char) : Except LoadError Int :=
  (Numeral.int base (String.ofList cs)).mapError .number

/-- The number of a text. -/
def realNumeral (cs : List Char) : Except LoadError Binary64 :=
  (Numeral.real (String.ofList cs)).mapError .number

/-- The integer without sign that a scalar is. -/
def unsignedInt (cs : List Char) : Except LoadError Int :=
  match cs with
  | ['0'] => .ok 0
  | '0' :: 'b' :: r => numeral 2 r
  | '0' :: 'x' :: r => numeral 16 r
  | '0' :: _ => numeral 8 cs
  | [] => .error .emptyNumber
  | _ =>
    if cs.contains ':' then do
      let parts ← (colonParts cs).mapM (numeral 10)
      return parts.foldl (fun n part => 60 * n + part) 0
    else numeral 10 cs

/-- The integer that a scalar is. -/
def int (text : String) : Except LoadError Value := do
  let (negative, cs) ← splitSign (dropLowLines text)
  let n ← unsignedInt cs
  return .int (if negative then -n else n)

/-- The sum of numbers of seconds, minutes and so on, the last part first, rounded at every step. -/
def sumSixtieths : Binary64 → Nat → List Binary64 → Except LoadError Binary64
  | sum, _, [] => .ok sum
  | sum, base, part :: parts =>
    let factor := Binary64.ofNat base
    if factor.isFinite then sumSixtieths (sum.add (part.mul factor)) (60 * base) parts
    else .error .tooLarge

/-- The float without sign that a scalar is. -/
def unsignedFloat (cs : List Char) : Except LoadError Binary64 :=
  if cs == ".inf".toList then .ok (.infinite false)
  else if cs == ".nan".toList then .ok .nan
  else if cs.contains ':' then do
    let parts ← (colonParts cs).mapM realNumeral
    sumSixtieths (.ofNat 0) 1 parts.reverse
  else realNumeral cs

/-- The sign and the magnitude of a scalar that is a float, in small letters. -/
def floatParts (text : String) : Except LoadError (Bool × List Char) :=
  splitSign (Text.lower (String.ofList (dropLowLines text))).toList

/-- Whether a text is the word for `nan`, with a sign or without. -/
def isNanWord (text : String) : Bool :=
  match floatParts text with
  | .ok (_, cs) => cs == ".nan".toList
  | .error _ => false

/-- The float that a scalar is. -/
def float (text : String) : Except LoadError Value := do
  let (negative, cs) ← floatParts text
  let x ← unsignedFloat cs
  return .float (if negative then x.neg else x)

/-- The truth value that a scalar is. -/
def bool (text : String) : Except LoadError Value :=
  let word := Text.lower text
  match boolWords.lookup word with
  | some b => .ok (.bool b)
  | none => .error (.noBool word)

/-- The bytes that a scalar is. -/
def binary (text : String) : Except LoadError Value :=
  if text.toList.all (·.toNat < 128) then
    match Text.Base64.decode text.toList with
    | some bytes => .ok (.bytes bytes)
    | none => .error .malformed
  else .error .malformed

/-- The day or moment that a scalar is; a line end after it does not count. -/
def timestamp (text : String) : Except LoadError Value :=
  let cs := match text.toList.reverse with
    | '\n' :: r => r.reverse
    | _ => text.toList
  match Timestamp.scan cs with
  | none => .error .noTimestamp
  | some (t, _, _) =>
    (t.resolve.mapError .calendar).map fun
      | .inl day => .date day
      | .inr moment => .moment moment

/-- The value of a scalar. -/
def scalar (kind : ScalarKind) (text : String) : Except LoadError Value :=
  match kind with
  | .text => .ok (.text text)
  | .null => .ok .null
  | .bool => bool text
  | .int => int text
  | .float => float text
  | .timestamp => timestamp text
  | .binary => binary text
  | .merge | .default | .indicator => .error .malformed

/-! ## Collections -/

/-- A fault and how deep inside a collection it is. -/
structure Fault where
  depth : Nat
  error : LoadError
deriving Repr, DecidableEq

/-- All of the results, or the fault among them that is the least deep, the first of these. -/
def allOrFault {α : Type} : List (Except Fault α) → Except Fault (List α)
  | [] => .ok []
  | r :: rs =>
    match r, allOrFault rs with
    | .ok x, .ok xs => .ok (x :: xs)
    | .error f, .error g => .error (if g.depth < f.depth then g else f)
    | .error f, .ok _ => .error f
    | .ok _, .error g => .error g

/-- Both of two results, or the less deep fault of them. -/
def bothOrFault {α β : Type} (a : Except Fault α) (b : Except Fault β) : Except Fault (α × β) :=
  match a, b with
  | .ok x, .ok y => .ok (x, y)
  | .error f, .error g => .error (if g.depth < f.depth then g else f)
  | .error f, .ok _ => .error f
  | .ok _, .error g => .error g

/-- A fault of the collection itself. -/
def faulty {α : Type} (e : LoadError) : Except Fault α := .error ⟨0, e⟩

namespace Document

/-- The node that an alias stands for. -/
def resolve (d : Document) (n : Node) : Node :=
  match n with
  | .alias id => (d.named.lookup id).getD n
  | _ => n

/-- The tag of a node. -/
def tagOf (d : Document) (n : Node) : Option Tag :=
  match d.resolve n with
  | .scalar _ t _ | .sequence _ t _ | .mapping _ t _ => some t
  | .alias _ => none

/-- The text of a node that is taken as a scalar: a mapping has the one under its key `=`. -/
def textOf (d : Document) : Nat → Node → Option String
  | 0, _ => none
  | fuel + 1, n =>
    match d.resolve n with
    | .scalar _ _ text => some text
    | .mapping _ _ entries =>
      match entries.find? fun (k, _) => d.tagOf k == some (.scalar .default) with
      | some (_, v) => textOf d fuel v
      | none => none
    | _ => none

/-- A key of a mapping, where `=` is a text. -/
def plainKey (d : Document) (key : Node) : Node :=
  match d.resolve key with
  | .scalar id (.scalar .default) text => .scalar id (.scalar .text) text
  | _ => key

/-- The entries of a mapping with those of the mappings it merges in front. The mappings `inside`
which this happens give their own entries only. -/
def merged (d : Document) : Nat → List Nat → Node → Except LoadError (List (Node × Node))
  | 0, _, _ => .error .malformed
  | fuel + 1, inside, n =>
    match d.resolve n with
    | .mapping id _ entries => do
      let isMerge := fun (e : Node × Node) => d.tagOf e.1 == some (.scalar .merge)
      let own := (entries.filter fun e => !isMerge e).map fun (k, v) => (d.plainKey k, v)
      if inside.contains id then return own
      let groups ← (entries.filter isMerge).mapM fun (_, v) =>
        match d.resolve v with
        | .mapping .. => merged d fuel (id :: inside) v
        | .sequence _ _ items => do
          let parts ← items.mapM fun item => merged d fuel (id :: inside) item
          return parts.reverse.flatten
        | _ => .error .malformed
      return groups.flatten ++ own
    | _ => .error .malformed

/-- A value with the label of its node, where the document has anchors. -/
def labelled (d : Document) (id : Nat) (v : Value) : Value :=
  if !d.named.isEmpty && v.canShare then .shared id v else v

/-- The value of a node that is no collection, or `none` for a collection: it is made after the
collection it stands in. -/
def atom (d : Document) (n : Node) : Except LoadError (Option Value) :=
  match d.resolve n with
  | .scalar id tag text =>
    match tag with
    | .scalar kind => (scalar kind text).map fun v => some (d.labelled id v)
    | .other _ => .error .malformed
    | _ => .ok none
  | .sequence _ tag _ =>
    match tag with
    | .scalar _ | .other _ => .error .malformed
    | _ => .ok none
  | .mapping id tag entries =>
    match tag with
    | .scalar kind =>
      match d.textOf (d.bound + 1) (.mapping id tag entries) with
      | none => .error .malformed
      | some text =>
        if kind == .timestamp then .error .notScalar
        else (scalar kind text).map fun v => some (d.labelled id v)
    | .other _ => .error .malformed
    | _ => .ok none
  | .alias _ => .error .malformed

/-- A key that can be told from others: the number `nan` equals nothing, so that each node for it has
a label of its own, and only the word for it gives the same key everywhere. -/
def distinctKey (d : Document) (n : Node) (v : Value) : Value :=
  match v, d.resolve n with
  | .float .nan, .scalar id _ text => if isNanWord text then v else .shared id v
  | .float .nan, .mapping id tag entries =>
    match d.textOf (d.bound + 1) (.mapping id tag entries) with
    | some text => if isNanWord text then v else .shared id v
    | none => v
  | _, _ => v

/-- The value of a key. -/
def key (d : Document) (n : Node) : Except Fault Value :=
  match d.atom n with
  | .error e => faulty e
  | .ok (some v) => .ok (d.distinctKey n v)
  | .ok none => faulty .malformed

/-- The value of a node inside the collections with the numbers `inside`. -/
def value (d : Document) : Nat → List Nat → Node → Except Fault Value
  | 0, _, _ => faulty .malformed
  | fuel + 1, inside, n =>
    match d.atom n with
    | .error e => faulty e
    | .ok (some v) => .ok v
    | .ok none =>
      let deeper := fun (id : Nat) (r : Except Fault Value) =>
        (r.map (d.labelled id)).mapError fun f => { f with depth := f.depth + 1 }
      let below := fun (id : Nat) (m : Node) => value d fuel (id :: inside) m
      match d.resolve n with
      | .sequence id tag items =>
        if inside.contains id then .ok (.again id)
        else deeper id (match tag with
          | .sequence => (allOrFault (items.map (below id))).map .list
          | .pairs => (allOrFault (items.map fun item =>
              match d.resolve item with
              | .mapping _ _ [(k, v)] =>
                (bothOrFault (below id k) (below id v)).map fun (a, b) => .list [a, b]
              | _ => faulty .malformed)).map .list
          | _ => faulty .malformed)
      | .mapping id tag entries =>
        if inside.contains id then .ok (.again id)
        else
          let content := match d.merged (d.bound + 1) [] (.mapping id tag entries) with
            | .error e => faulty e
            | .ok es => allOrFault (es.map fun (k, v) => bothOrFault (d.key k) (below id v))
          deeper id (match tag with
            | .mapping => content.map fun es => .map (Value.ofEntries es)
            | .set => content.map fun es => .set (Value.ofMembers (es.map Prod.fst))
            | _ => faulty .malformed)
      | _ => .error ⟨1, .malformed⟩

end Document

/-- The value of a text; a text without a document is null. -/
def load (text : String) : Except LoadError Value := do
  let d ← Document.read text
  match d.root with
  | none => return .null
  | some root => (d.value (d.bound + 1) [] root).mapError (·.error)

end Yaml

end GraphPaths
