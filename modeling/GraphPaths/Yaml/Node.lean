import GraphPaths.Yaml.Implicit
import GraphPaths.Yaml.Lexer

/-!
# Nodes

The structure of a YAML document: scalars, sequences and mappings with their tags resolved. Every node
has a number, in the order in which the nodes start, and an alias is the number of the node it stands
for. `Document.read` takes the tokens of a text, which may hold one document at most; a text without a
document has no root.
-/

namespace GraphPaths

namespace Yaml

/-- What a node is to be taken as. -/
inductive Tag where
  | scalar (kind : ScalarKind)
  | sequence
  | mapping
  | set
  /-- A sequence of mappings with one entry each, the key of which need not be a scalar. -/
  | pairs
  /-- A tag without a meaning here. -/
  | other (name : String)
deriving Repr, DecidableEq

/-- A node. -/
inductive Node where
  | scalar (id : Nat) (tag : Tag) (text : String)
  | sequence (id : Nat) (tag : Tag) (items : List Node)
  | mapping (id : Nat) (tag : Tag) (entries : List (Node × Node))
  | alias (id : Nat)
deriving Repr, Inhabited

/-- A document: its root, the nodes that an alias can stand for, and a bound above the numbers of
nodes. -/
structure Document where
  root : Option Node
  named : List (Nat × Node)
  bound : Nat
deriving Repr

/-! ## Tags -/

/-- The start of the names of all tags with a meaning. -/
def tagSpace : String := "tag:yaml.org,2002:"

/-- The tags with a meaning, by the rest of their names. -/
def knownTags : List (String × Tag) :=
  [("null", .scalar .null), ("bool", .scalar .bool), ("int", .scalar .int),
   ("float", .scalar .float), ("binary", .scalar .binary), ("timestamp", .scalar .timestamp),
   ("str", .scalar .text), ("merge", .scalar .merge), ("value", .scalar .default),
   ("seq", .sequence), ("map", .mapping), ("set", .set), ("omap", .pairs), ("pairs", .pairs)]

/-- The tag with a name. -/
def Tag.ofName (name : String) : Tag :=
  match knownTags.find? fun (word, _) => tagSpace ++ word == name with
  | some (_, t) => t
  | none => .other name

/-- The kind of a plain scalar; a line end after its text does not count. -/
def scalarKind (text : String) : ScalarKind :=
  match text.toList.reverse with
  | '\n' :: c :: r => implicitKind (c :: r).reverse
  | ['\n'] => .text
  | _ => implicitKind text.toList

/-- The tag of a scalar: the one written, or the one that its form implies. -/
def scalarTag (written : Option String) (text : String) (plain : Bool) : Tag :=
  match written with
  | some "!" => .scalar (scalarKind text)
  | some name => .ofName name
  | none => .scalar (if plain then scalarKind text else .text)

/-- The tag of a collection: the one written, or that of its kind. -/
def collectionTag (written : Option String) (default_ : Tag) : Tag :=
  match written with
  | some "!" | none => default_
  | some name => .ofName name

/-! ## Reading -/

/-- How far a document is read. -/
structure Reading where
  tokens : List Token
  next : Nat
  /-- The numbers of the nodes with an anchor. -/
  anchors : List (String × Nat)
  /-- The nodes with an anchor that are complete. -/
  named : List (Nat × Node)
deriving Repr

namespace Reading

/-- The next token. -/
def peek (s : Reading) : Except LoadError Token :=
  match s.tokens with
  | [] => .error .malformed
  | .broken e :: _ => .error e
  | t :: _ => .ok t

/-- The place after the next token. -/
def drop (s : Reading) : Reading := { s with tokens := s.tokens.tail }

/-- The number of a node that starts here. Two nodes must not have the same anchor. -/
def enter (s : Reading) (anchor : Option String) : Except LoadError (Nat × Reading) :=
  match anchor with
  | none => .ok (s.next, { s with next := s.next + 1 })
  | some a =>
    if (s.anchors.lookup a).isSome then .error .malformed
    else .ok (s.next, { s with next := s.next + 1, anchors := (a, s.next) :: s.anchors })

/-- A node that is complete, known to its aliases if it has an anchor. -/
def leave (s : Reading) (anchor : Option String) (id : Nat) (n : Node) : Node × Reading :=
  (n, if anchor.isSome then { s with named := (id, n) :: s.named } else s)

/-- The node where none is written. -/
def absent (s : Reading) : Node × Reading :=
  (.scalar s.next (.scalar .null) "", { s with next := s.next + 1 })

end Reading

/-- The name of a tag as written, with its handle replaced by what it stands for. -/
def tagName (handles : List (String × String)) (handle : Option String) (suffix : String) :
    Except LoadError String :=
  match handle with
  | none => .ok suffix
  | some h => match handles.lookup h with
    | some expansion => .ok (expansion ++ suffix)
    | none => .error .malformed

/-- The anchor and the tag in front of a node, in either order. -/
def properties (handles : List (String × String)) (s : Reading) :
    Except LoadError (Option String × Option String × Reading) := do
  match ← s.peek with
  | .anchor a =>
    let s := s.drop
    match ← s.peek with
    | .tag h suffix =>
      let name ← tagName handles h suffix
      return (some a, some name, s.drop)
    | _ => return (some a, none, s)
  | .tag h suffix =>
    let s := s.drop
    match ← s.peek with
    | .anchor a =>
      let name ← tagName handles h suffix
      return (some a, some name, s.drop)
    | _ =>
      let name ← tagName handles h suffix
      return (none, some name, s)
  | _ => return (none, none, s)

/-- Where a node may stand: in brackets, in a block, or as part of a block's mapping, where the items
of a sequence need no indentation. -/
inductive NodeContext where
  | flow
  | block
  | entry
deriving Repr, DecidableEq

mutual

/-- A node. -/
def node (handles : List (String × String)) :
    Nat → NodeContext → Reading → Except LoadError (Node × Reading)
  | 0, _, _ => .error .malformed
  | fuel + 1, context, s => do
    match ← s.peek with
    | .alias name =>
      match s.anchors.lookup name with
      | some id => return (.alias id, s.drop)
      | none => throw .malformed
    | _ =>
      let (anchor, written, s) ← properties handles s
      let sequence := fun (id : Nat) (r : List Node × Reading) =>
        r.2.leave anchor id (.sequence id (collectionTag written .sequence) r.1)
      let mapping := fun (id : Nat) (r : List (Node × Node) × Reading) =>
        r.2.leave anchor id (.mapping id (collectionTag written .mapping) r.1)
      match ← s.peek with
      | .scalar text plain =>
        let (id, s) ← s.drop.enter anchor
        return s.leave anchor id (.scalar id (scalarTag written text plain) text)
      | .flowSequenceStart =>
        let (id, s) ← s.enter anchor
        return sequence id (← flowItems handles fuel true s.drop)
      | .flowMappingStart =>
        let (id, s) ← s.enter anchor
        return mapping id (← flowEntries handles fuel true s.drop)
      | .blockEntry =>
        if context == .entry then
          let (id, s) ← s.enter anchor
          return sequence id (← looseItems handles fuel s)
        else if anchor.isNone && written.isNone then throw .malformed
        else
          let (id, s) ← s.enter anchor
          return s.leave anchor id (.scalar id (scalarTag written "" true) "")
      | t =>
        if t == .blockSequenceStart && context != .flow then
          let (id, s) ← s.enter anchor
          return sequence id (← blockItems handles fuel s.drop)
        else if t == .blockMappingStart && context != .flow then
          let (id, s) ← s.enter anchor
          return mapping id (← blockEntries handles fuel s.drop)
        else if anchor.isNone && written.isNone then throw .malformed
        else
          let (id, s) ← s.enter anchor
          return s.leave anchor id (.scalar id (scalarTag written "" true) "")

/-- A node, or the absent one before the end of its place. -/
def nodeOrAbsent (handles : List (String × String)) :
    Nat → NodeContext → (Token → Bool) → Reading → Except LoadError (Node × Reading)
  | 0, _, _, _ => .error .malformed
  | fuel + 1, context, ends, s => do
    let t ← s.peek
    if ends t then return s.absent else node handles fuel context s

/-- The value of an entry, absent if no mark of one comes. -/
def entryValue (handles : List (String × String)) :
    Nat → NodeContext → (Token → Bool) → Reading → Except LoadError (Node × Reading)
  | 0, _, _, _ => .error .malformed
  | fuel + 1, context, ends, s => do
    let t ← s.peek
    if t == .value then nodeOrAbsent handles fuel context ends s.drop else return s.absent

/-- The items of a sequence in brackets. -/
def flowItems (handles : List (String × String)) :
    Nat → Bool → Reading → Except LoadError (List Node × Reading)
  | 0, _, _ => .error .malformed
  | fuel + 1, first, s => do
    let t ← s.peek
    if t == .flowSequenceEnd then return ([], s.drop)
    if !first && t != .flowEntry then throw .malformed
    let s := if first then s else s.drop
    let ends := fun t => t == .flowEntry || t == .flowSequenceEnd
    let t ← s.peek
    if t == .flowSequenceEnd then return ([], s.drop)
    else if t == .key then
      let (id, s) ← s.drop.enter none
      let (key, s) ← nodeOrAbsent handles fuel .flow (fun t => t == .value || ends t) s
      let (v, s) ← entryValue handles fuel .flow ends s
      let (items, s) ← flowItems handles fuel false s
      return (.mapping id .mapping [(key, v)] :: items, s)
    else
      let (item, s) ← node handles fuel .flow s
      let (items, s) ← flowItems handles fuel false s
      return (item :: items, s)

/-- The entries of a mapping in brackets. -/
def flowEntries (handles : List (String × String)) :
    Nat → Bool → Reading → Except LoadError (List (Node × Node) × Reading)
  | 0, _, _ => .error .malformed
  | fuel + 1, first, s => do
    let t ← s.peek
    if t == .flowMappingEnd then return ([], s.drop)
    if !first && t != .flowEntry then throw .malformed
    let s := if first then s else s.drop
    let ends := fun t => t == .flowEntry || t == .flowMappingEnd
    let t ← s.peek
    if t == .flowMappingEnd then return ([], s.drop)
    else if t == .key then
      let (key, s) ← nodeOrAbsent handles fuel .flow (fun t => t == .value || ends t) s.drop
      let (v, s) ← entryValue handles fuel .flow ends s
      let (entries, s) ← flowEntries handles fuel false s
      return ((key, v) :: entries, s)
    else
      let (key, s) ← node handles fuel .flow s
      let (v, s) := s.absent
      let (entries, s) ← flowEntries handles fuel false s
      return ((key, v) :: entries, s)

/-- The items of a block's sequence. -/
def blockItems (handles : List (String × String)) :
    Nat → Reading → Except LoadError (List Node × Reading)
  | 0, _ => .error .malformed
  | fuel + 1, s => do
    let t ← s.peek
    if t == .blockEnd then return ([], s.drop)
    if t != .blockEntry then throw .malformed
    let ends := fun t => t == .blockEntry || t == .blockEnd
    let (item, s) ← nodeOrAbsent handles fuel .block ends s.drop
    let (items, s) ← blockItems handles fuel s
    return (item :: items, s)

/-- The items of a sequence that is not indented below its key. -/
def looseItems (handles : List (String × String)) :
    Nat → Reading → Except LoadError (List Node × Reading)
  | 0, _ => .error .malformed
  | fuel + 1, s => do
    let t ← s.peek
    if t != .blockEntry then return ([], s)
    let ends := fun t => t == .blockEntry || t == .key || t == .value || t == .blockEnd
    let (item, s) ← nodeOrAbsent handles fuel .block ends s.drop
    let (items, s) ← looseItems handles fuel s
    return (item :: items, s)

/-- The entries of a block's mapping. -/
def blockEntries (handles : List (String × String)) :
    Nat → Reading → Except LoadError (List (Node × Node) × Reading)
  | 0, _ => .error .malformed
  | fuel + 1, s => do
    let t ← s.peek
    if t == .blockEnd then return ([], s.drop)
    if t != .key then throw .malformed
    let ends := fun t => t == .key || t == .value || t == .blockEnd
    let (key, s) ← nodeOrAbsent handles fuel .entry ends s.drop
    let (v, s) ← entryValue handles fuel .entry ends s
    let (entries, s) ← blockEntries handles fuel s
    return ((key, v) :: entries, s)

end

/-! ## Documents -/

/-- The handles that need no directive. -/
def defaultHandles : List (String × String) := [("!", "!"), ("!!", tagSpace)]

/-- The handles that directives name, the last first, before a document. At most one directive gives
the version, and its major number is 1. -/
def directives : List Token → Bool → List (String × String) →
    Except LoadError (List (String × String) × List Token)
  | .broken e :: _, _, _ => .error e
  | .directive (.version major _) :: r, versioned, hs =>
    if versioned || major != 1 then .error .malformed else directives r true hs
  | .directive (.handle name expansion) :: r, versioned, hs =>
    if (hs.lookup name).isSome then .error .malformed
    else directives r versioned ((name, expansion) :: hs)
  | .directive .other :: r, versioned, hs => directives r versioned hs
  | ts, _, hs => .ok (hs, ts)

/-- The place after the marks that end documents. -/
def dropEnds (s : Reading) : Reading := { s with tokens := s.tokens.dropWhile (· == .documentEnd) }

/-- The start of a document that is marked, and its handles. -/
def documentStart (s : Reading) : Except LoadError (List (String × String) × Reading) := do
  let (handles, ts) ← directives s.tokens false []
  let s := { s with tokens := ts }
  match ← s.peek with
  | .documentStart => return (handles ++ defaultHandles, s.drop)
  | _ => throw .malformed

/-- Whether a document ends before a token. -/
def endsDocument : Token → Bool
  | .directive _ | .documentStart | .documentEnd | .streamEnd => true
  | _ => false

/-- Nothing follows a document but marks of its end. -/
def streamEnd (s : Reading) : Except LoadError Unit := do
  let s := dropEnds s
  match ← s.peek with
  | .streamEnd => return ()
  | _ =>
    let _ ← documentStart s
    throw .malformed

/-- The document of a text. -/
def Document.read (text : String) : Except LoadError Document := do
  let ts := tokens text
  let fuel := 4 * ts.length + 4
  let s : Reading := ⟨ts, 0, [], []⟩
  let (root, s) ← match ← s.peek with
    | .streamEnd => pure (none, s)
    | .directive _ | .documentStart => do
      let (handles, s) ← documentStart s
      let t ← s.peek
      let (n, s) ← if endsDocument t then pure s.absent else node handles fuel .block s
      pure (some n, s)
    | _ => do
      let (n, s) ← node defaultHandles fuel .block s
      pure (some n, s)
  streamEnd s
  return ⟨root, s.named, s.next⟩

end Yaml

end GraphPaths
