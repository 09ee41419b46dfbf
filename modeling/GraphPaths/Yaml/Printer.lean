import GraphPaths.Number.Numeral
import GraphPaths.Number.Shortest
import GraphPaths.Text.Base64
import GraphPaths.Text.Line
import GraphPaths.Value
import GraphPaths.Yaml.Style

/-!
# Writing YAML

A value is written with one entry or item a line, in the order of the value. A shared value that
stands in several places is written once, with an anchor, and then by an alias; `anchors` numbers
the anchors in the order in which second places are met. A key that is empty, of several lines or
long stands after a question mark.
-/

namespace GraphPaths

namespace Yaml

/-! ## Anchors -/

/-- The labels met so far, and those met twice, in the order of their second meeting. -/
structure Meetings where
  seen : List Nat
  repeated : List Nat

/-- A further meeting of a label. -/
def Meetings.again (m : Meetings) (label : Nat) : Meetings :=
  if m.repeated.contains label then m else { m with repeated := m.repeated ++ [label] }

mutual

/-- The meetings after a value; what a shared value holds is met once. -/
def meet (m : Meetings) : Value → Meetings
  | .shared l v =>
    if !v.canShare then m
    else if m.seen.contains l then m.again l
    else meet { m with seen := l :: m.seen } v
  | .again l => m.again l
  | .list xs => meetItems m xs
  | .map es => meetEntries m es
  | .set xs => meetItems m xs
  | _ => m

/-- The meetings after the items of a list. -/
def meetItems (m : Meetings) : List Value → Meetings
  | [] => m
  | x :: xs => meetItems (meet m x) xs

/-- The meetings after the entries of a mapping. -/
def meetEntries (m : Meetings) : List (Value × Value) → Meetings
  | [] => m
  | (k, v) :: es => meetEntries (meet (meet m k) v) es

end

/-- The labels that need an anchor, in the order of their numbers. -/
def anchors (v : Value) : List Nat := (meet ⟨[], []⟩ v).repeated

/-- The name of the anchor of a label, if it has one. -/
def anchorName (anchors : List Nat) (label : Nat) : Option String :=
  (anchors.findIdx? (· == label)).map fun i => "id" ++ Text.decimalPadded 3 (i + 1)

/-! ## Scalars -/

/-- The form of a value that holds no others. -/
structure Scalar where
  kind : ScalarKind
  text : String
deriving Repr, DecidableEq

/-- The tag of a kind of scalar. -/
def ScalarKind.tag : ScalarKind → String
  | .text => "!!str"
  | .null => "!!null"
  | .bool => "!!bool"
  | .int => "!!int"
  | .float => "!!float"
  | .timestamp => "!!timestamp"
  | .binary => "!!binary"
  | .merge => "!!merge"
  | .default => "!!value"
  | .indicator => "!!yaml"

/-- The text of a float: a number with an exponent always has a fraction. -/
def floatText : Binary64 → String
  | .nan => ".nan"
  | .infinite negative => if negative then "-.inf" else ".inf"
  | x =>
    let cs := x.text.toList
    if cs.contains '.' then String.ofList cs
    else String.ofList (cs.flatMap fun c => if c == 'e' then ['.', '0', 'e'] else [c])

/-- The scalar of a value that holds no others. -/
def scalarOf : Value → Except NumeralError Scalar
  | .bool b => .ok ⟨.bool, if b then "true" else "false"⟩
  | .int i => (Numeral.ofInt i).map fun s => ⟨.int, s⟩
  | .float x => .ok ⟨.float, floatText x⟩
  | .text s => .ok ⟨.text, s⟩
  | .date d => .ok ⟨.timestamp, d.iso⟩
  | .moment t => .ok ⟨.timestamp, t.iso " "⟩
  | .bytes b => .ok ⟨.binary, Text.Base64.encodeLines b⟩
  | _ => .ok ⟨.null, "null"⟩

/-- The lines of a text that ends in a line feed. -/
def linesOf (s : String) : List (List Char) := (Text.splitAt '\n' s.toList).dropLast

/-- Where a node stands. -/
structure Place where
  root : Bool
  /-- Whether it is a key or a value of a mapping. -/
  inMapping : Bool
  /-- Whether it is a key in front of a colon in one line. -/
  key : Bool

/-- A scalar at a place; a binary one, or one that would read back as something else, has its tag. -/
def writeScalar (place : Place) (indent : Nat) (s : Scalar) (p : Pen) : Pen :=
  let cs := s.text.toList
  let bare := implicitKind cs == s.kind
  let style := styleOf bare (s.kind == .binary) place.key (Traits.of cs)
  let tagged := if style == .plain then !bare else s.kind != .text
  let p := if tagged then p.mark s.kind.tag true false else p
  match style with
  | .plain => writePlain p place.root indent (!place.key) cs
  | .single => writeSingle p indent (!place.key) cs
  | .double => writeDouble p indent (!place.key) cs
  | .block => writeBlock p indent (linesOf s.text)

/-! ## Collections -/

/-- A text under way, with the shared values that it holds already. -/
structure Progress where
  pen : Pen
  done : List Nat

/-- The progress after a change of the pen. -/
def Progress.draw (s : Progress) (f : Pen → Pen) : Progress := { s with pen := f s.pen }

/-- Whether a key can stand before a colon in one line: as an alias, or short and of one line. -/
def isSimpleKey (anchors done : List Nat) (k : Value) : Except NumeralError Bool := do
  let (name, isAlias) := match k with
    | .shared l _ => ((anchorName anchors l).getD "", done.contains l)
    | .again l => ((anchorName anchors l).getD "", true)
    | _ => ("", false)
  if isAlias then return decide (name.length < 128)
  match k.bare with
  | .list xs => return xs.isEmpty
  | .map es => return es.isEmpty
  | .set xs => return xs.isEmpty
  | atom =>
    let s ← scalarOf atom
    let t := Traits.of s.text.toList
    return decide (name.length + s.kind.tag.length + s.text.length < 128) && !t.empty && !t.multiline

/-- The indentation of what a collection holds. -/
def inner (indent : Option Nat) (stay : Bool) : Nat :=
  match indent with
  | none => 0
  | some n => if stay then n else n + 2

/-- The indentation of the further lines of a scalar. -/
def continued (indent : Option Nat) : Nat :=
  match indent with
  | none => 2
  | some n => n + 2

/-- An alias, or else the anchor of a shared value. -/
def Progress.enter (s : Progress) (anchors : List Nat) (label : Nat) : Progress :=
  match anchorName anchors label with
  | none => s
  | some name =>
    if s.done.contains label then s.draw fun p => p.mark ("*" ++ name) true false
    else { s.draw fun p => p.mark ("&" ++ name) true false with done := label :: s.done }

mutual

/-- A value at a place. -/
def writeNode (anchors : List Nat) (place : Place) (indent : Option Nat) :
    Value → Progress → Except NumeralError Progress
  | .shared l v, s =>
    let entered := s.enter anchors l
    if s.done.contains l then .ok entered else writeNode anchors place indent v entered
  | .again l, s => .ok (s.enter anchors l)
  | .list [], s => .ok (s.draw fun p => p.mark "[]" true false)
  | .list (x :: xs), s =>
    writeItems anchors (inner indent (place.inMapping && !s.pen.fresh)) (x :: xs) s
  | .map [], s => .ok (s.draw fun p => p.mark "\x7b\x7d" true false)
  | .map (e :: es), s => writeEntries anchors (inner indent false) (e :: es) s
  | .set xs, s =>
    let s := s.draw fun p => p.mark "!!set" true false
    match xs with
    | [] => .ok (s.draw fun p => p.mark "\x7b\x7d" true false)
    | _ => writeMembers anchors (inner indent false) xs s
  | v, s => do
    let scalar ← scalarOf v
    return s.draw (writeScalar place (continued indent) scalar)

/-- The items of a list, each after a dash. -/
def writeItems (anchors : List Nat) (indent : Nat) :
    List Value → Progress → Except NumeralError Progress
  | [], s => .ok s
  | x :: xs, s => do
    let s := s.draw fun p => (p.indent indent).mark "-" true true
    let s ← writeNode anchors ⟨false, false, false⟩ (some indent) x s
    writeItems anchors indent xs s

/-- The entries of a mapping. -/
def writeEntries (anchors : List Nat) (indent : Nat) :
    List (Value × Value) → Progress → Except NumeralError Progress
  | [], s => .ok s
  | (k, v) :: es, s => do
    let s := s.draw fun p => p.indent indent
    let s ←
      if ← isSimpleKey anchors s.done k then do
        let s ← writeNode anchors ⟨false, true, true⟩ (some indent) k s
        pure (s.draw fun p => p.mark ":" false false)
      else do
        let s := s.draw fun p => p.mark "?" true true
        let s ← writeNode anchors ⟨false, true, false⟩ (some indent) k s
        pure (s.draw fun p => (p.indent indent).mark ":" true true)
    let s ← writeNode anchors ⟨false, true, false⟩ (some indent) v s
    writeEntries anchors indent es s

/-- The members of a set, as keys of nothing. -/
def writeMembers (anchors : List Nat) (indent : Nat) :
    List Value → Progress → Except NumeralError Progress
  | [], s => .ok s
  | k :: ks, s => do
    let s := s.draw fun p => p.indent indent
    let s ←
      if ← isSimpleKey anchors s.done k then do
        let s ← writeNode anchors ⟨false, true, true⟩ (some indent) k s
        pure (s.draw fun p => p.mark ":" false false)
      else do
        let s := s.draw fun p => p.mark "?" true true
        let s ← writeNode anchors ⟨false, true, false⟩ (some indent) k s
        pure (s.draw fun p => (p.indent indent).mark ":" true true)
    let s := s.draw (writeScalar ⟨false, true, false⟩ (indent + 2) ⟨.null, "null"⟩)
    writeMembers anchors indent ks s

end

/-- The end of a text: a new line, and the mark of the document's end after a bare scalar. -/
def finish (p : Pen) : String :=
  let p := p.indent 0
  if p.openEnded then ((p.mark "..." true false).indent 0).written else p.written

/-- The text of a value. -/
def text (v : Value) : Except NumeralError String := do
  let s ← writeNode (anchors v) ⟨true, false, false⟩ none v ⟨Pen.start, []⟩
  return finish s.pen

end Yaml

end GraphPaths
