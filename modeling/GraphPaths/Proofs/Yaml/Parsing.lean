import GraphPaths.Proofs.Outcome
import GraphPaths.Yaml.Node

/-!
# Nodes from tokens

One step of the reader of nodes for each kind of node, with an anchor in front of it or without, and for
the items and entries of blocks.
-/

namespace GraphPaths

namespace Yaml

/-- The token of an anchor in front of a node, if it has one. -/
def anchorTokens : Option String → List Token
  | none => []
  | some name => [.anchor name]

/-- A node has started, and `ts` are the tokens that come next. -/
def Reading.entered (s : Reading) (anchor : Option String) (ts : List Token) : Reading :=
  ⟨ts, s.next + 1, anchor.elim s.anchors fun name => (name, s.next) :: s.anchors, s.named⟩

variable {hs : List (String × String)} {fuel : Nat} {context : NodeContext} {s : Reading}
  {r : List Token} {anchor : Option String}

variable (hs fuel context) in
theorem node_scalar {text : String} {plain : Bool} (h : s.tokens = .scalar text plain :: r) :
    node hs (fuel + 1) context s =
      .ok (.scalar s.next (scalarTag none text plain) text, s.entered none r) := by
  obtain ⟨ts, next, names, named⟩ := s
  obtain rfl : ts = _ := h
  rw [node]
  rfl

theorem node_alias {name : String} {id : Nat} (h : s.tokens = .alias name :: r)
    (hname : s.anchors.lookup name = some id) :
    node hs (fuel + 1) context s = .ok (.alias id, { s with tokens := r }) := by
  obtain ⟨ts, next, names, named⟩ := s
  obtain rfl : ts = _ := h
  have hname : names.lookup name = some id := hname
  rw [node]
  dsimp only [Reading.peek, bind, Except.bind]
  rw [hname]
  rfl

theorem enter_eq (hfree : ∀ name ∈ anchor, s.anchors.lookup name = none) :
    s.enter anchor = .ok (s.next, s.entered anchor s.tokens) := by
  unfold Reading.enter
  cases anchor with
  | none => rfl
  | some name =>
    simp only [hfree name rfl]
    rfl

/-- A list whose items are read. -/
def listNode (anchor : Option String) (id : Nat) (x : List Node × Reading) : Node × Reading :=
  x.2.leave anchor id (.sequence id .sequence x.1)

/-- A mapping whose entries are read. -/
def mapNode (anchor : Option String) (id : Nat) (x : List (Node × Node) × Reading) : Node × Reading :=
  x.2.leave anchor id (.mapping id .mapping x.1)

/-- The collection that a token starts, in a block. -/
def collection (hs : List (String × String)) (fuel : Nat) (anchor : Option String) (id : Nat)
    (s : Reading) : Token → Except LoadError (Node × Reading)
  | .flowSequenceStart => do return listNode anchor id (← flowItems hs fuel true s.drop)
  | .flowMappingStart => do return mapNode anchor id (← flowEntries hs fuel true s.drop)
  | .blockSequenceStart => do return listNode anchor id (← blockItems hs fuel s.drop)
  | .blockMappingStart => do return mapNode anchor id (← blockEntries hs fuel s.drop)
  | _ => do return listNode anchor id (← looseItems hs fuel s)

/-- A token that starts a collection at a place. -/
def startsCollection (context : NodeContext) : Token → Bool
  | .flowSequenceStart | .flowMappingStart => true
  | .blockSequenceStart | .blockMappingStart => context != .flow
  | .blockEntry => context == .entry
  | _ => false

/-- A collection, with an anchor in front of it or without. -/
theorem node_collection {t : Token} (ht : startsCollection context t)
    (h : s.tokens = anchorTokens anchor ++ t :: r)
    (hfree : ∀ name ∈ anchor, s.anchors.lookup name = none) :
    node hs (fuel + 1) context s = collection hs fuel anchor s.next (s.entered anchor (t :: r)) t := by
  obtain ⟨ts, next, names, named⟩ := s
  obtain rfl : ts = _ := h
  have henter := enter_eq (s := ⟨t :: r, next, names, named⟩) hfree
  have hnode : node hs (fuel + 1) context ⟨anchorTokens anchor ++ t :: r, next, names, named⟩ =
      Reading.enter ⟨t :: r, next, names, named⟩ anchor >>= fun x =>
        collection hs fuel anchor x.1 x.2 t := by
    rw [node]
    cases t <;> cases context <;> first
      | exact absurd ht Bool.false_ne_true
      | cases anchor <;> rfl
  rw [hnode, henter]
  rfl

/-! ## Items and entries -/

/-- A token that starts a node, other than the dash of an item. -/
def startsNode : Token → Bool
  | .alias _ | .anchor _ | .scalar .. | .flowSequenceStart | .flowMappingStart | .blockSequenceStart
  | .blockMappingStart => true
  | _ => false

/-- The context in which a node is read. -/
def contextOf (inMapping : Bool) : NodeContext := if inMapping then .entry else .block

/-- The items of a block, in which they are indented or not. -/
def readItems (loose : Bool) (hs : List (String × String)) (fuel : Nat) (s : Reading) :
    Except LoadError (List Node × Reading) :=
  if loose then looseItems hs fuel s else blockItems hs fuel s

theorem readItems_cons (loose : Bool) {t : Token} (ht : startsNode t)
    (h : s.tokens = .blockEntry :: t :: r) : readItems loose hs (fuel + 2) s = do
      let x ← node hs fuel .block { s with tokens := t :: r }
      let y ← readItems loose hs (fuel + 1) x.2
      return (x.1 :: y.1, y.2) := by
  obtain ⟨ts, next, names, named⟩ := s
  obtain rfl : ts = _ := h
  cases loose with
  | true =>
    show looseItems hs (fuel + 2) _ = _
    rw [looseItems]
    cases t <;> first | exact absurd ht Bool.false_ne_true | rfl
  | false =>
    show blockItems hs (fuel + 2) _ = _
    rw [blockItems]
    cases t <;> first | exact absurd ht Bool.false_ne_true | rfl

/-- A list in a block, with an anchor in front of it or without: its items alone where they are not
indented, else between the start and the end of a block. -/
theorem node_items {loose inMapping : Bool} {items ts : List Token} (hloose : loose → inMapping)
    (hitems : items = .blockEntry :: ts) (h : s.tokens = anchorTokens anchor ++
      if loose then items ++ r else .blockSequenceStart :: (items ++ .blockEnd :: r))
    (hfree : ∀ name ∈ anchor, s.anchors.lookup name = none) :
    node hs (fuel + 1) (contextOf inMapping) s =
      (readItems loose hs fuel (s.entered anchor (items ++ if loose then r else .blockEnd :: r))).map
        (listNode anchor s.next) := by
  subst hitems
  cases loose with
  | true =>
    rw [hloose rfl]
    exact node_collection (t := .blockEntry) rfl h hfree
  | false =>
    have hblock : startsCollection (contextOf inMapping) .blockSequenceStart := by
      cases inMapping <;> rfl
    exact node_collection hblock h hfree

theorem blockItems_end (h : s.tokens = .blockEnd :: r) :
    blockItems hs (fuel + 1) s = .ok ([], { s with tokens := r }) := by
  obtain ⟨ts, next, names, named⟩ := s
  obtain rfl : ts = _ := h
  rw [blockItems]
  rfl

theorem looseItems_end {t : Token} (ht : t = .key ∨ t = .blockEnd) (h : s.tokens = t :: r) :
    looseItems hs (fuel + 1) s = .ok ([], s) := by
  obtain ⟨ts, next, names, named⟩ := s
  obtain rfl : ts = _ := h
  rw [looseItems]
  rcases ht with rfl | rfl <;> rfl

/-- Whether a key or a value of a block's entry is absent before a token. -/
def endsEntry (t : Token) : Bool := t == .key || t == .value || t == .blockEnd

theorem blockEntries_key (h : s.tokens = .key :: r) : blockEntries hs (fuel + 1) s = do
    let x ← nodeOrAbsent hs fuel .entry endsEntry { s with tokens := r }
    let y ← entryValue hs fuel .entry endsEntry x.2
    let z ← blockEntries hs fuel y.2
    return ((x.1, y.1) :: z.1, z.2) := by
  obtain ⟨ts, next, names, named⟩ := s
  obtain rfl : ts = _ := h
  rw [blockEntries]
  rfl

theorem entryValue_value {t : Token} (ht : startsNode t ∨ t = .blockEntry)
    (h : s.tokens = .value :: t :: r) : entryValue hs (fuel + 2) .entry endsEntry s =
      node hs fuel .entry { s with tokens := t :: r } := by
  obtain ⟨ts, next, names, named⟩ := s
  obtain rfl : ts = _ := h
  rw [entryValue]
  show nodeOrAbsent hs (fuel + 1) .entry endsEntry ⟨t :: r, next, names, named⟩ = _
  rw [nodeOrAbsent]
  rcases ht with ht | rfl
  · cases t <;> first | exact absurd ht Bool.false_ne_true | rfl
  · rfl

theorem blockEntries_cons {u : String} {plain : Bool} {t : Token}
    (ht : startsNode t ∨ t = .blockEntry) (h : s.tokens = .key :: .scalar u plain :: .value :: t :: r) :
    blockEntries hs (fuel + 3) s = do
      let x ← node hs fuel .entry (s.entered none (t :: r))
      let y ← blockEntries hs (fuel + 2) x.2
      return ((.scalar s.next (scalarTag none u plain) u, x.1) :: y.1, y.2) := by
  have hkey : nodeOrAbsent hs (fuel + 2) .entry endsEntry
      { s with tokens := .scalar u plain :: .value :: t :: r } =
        .ok (.scalar s.next (scalarTag none u plain) u, s.entered none (.value :: t :: r)) := by
    have := node_scalar hs fuel .entry
      (s := { s with tokens := .scalar u plain :: .value :: t :: r }) rfl
    rw [nodeOrAbsent]
    exact this
  rw [blockEntries_key h, hkey]
  show (entryValue hs (fuel + 2) .entry endsEntry (s.entered none (.value :: t :: r)) >>= _) = _
  rw [entryValue_value ht rfl]
  rfl

theorem blockEntries_end (h : s.tokens = .blockEnd :: r) :
    blockEntries hs (fuel + 1) s = .ok ([], { s with tokens := r }) := by
  obtain ⟨ts, next, names, named⟩ := s
  obtain rfl : ts = _ := h
  rw [blockEntries]
  rfl

end Yaml

end GraphPaths
