import GraphPaths.Proofs.Value.Plain
import GraphPaths.Proofs.Yaml.Site

/-!
# Outlines

The outline of a value tells what stands in its YAML text: where each text is drawn, which lists and
mappings get an anchor, and which are aliases of what was drawn before. From it the tokens of the text
follow (`Outline.tokens`), the value that is read (`Outline.value`), and the sites of all texts
(`Outline.sites`).
-/

namespace GraphPaths

namespace Yaml

/-- What stands in a text for a value. -/
inductive Outline where
  | text (site : Site)
  /-- A number, a truth value or null. -/
  | atom (v : Value)
  /-- A list; `loose` says that its items are not indented below the key in front of it. -/
  | list (loose : Bool) (items : List Outline)
  | map (entries : List (Site × Outline))
  | anchored (name : String) (o : Outline)
  /-- The place of a value that was drawn before. -/
  | alias (name : String) (v : Value)

namespace Outline

/-- The text of a value that holds no others. -/
def atomText (v : Value) : String :=
  match scalarOf v with
  | .ok s => s.text
  | .error _ => ""

mutual

/-- The value that is read. -/
def value : Outline → Value
  | .text s => .text s.readBack
  | .atom v => v
  | .list _ os => .list (values os)
  | .map es => .map (Value.ofEntries (entryValues es))
  | .anchored _ o => o.value
  | .alias _ v => v

/-- The values of items. -/
def values : List Outline → List Value
  | [] => []
  | o :: os => o.value :: values os

/-- The keys and values of entries. -/
def entryValues : List (Site × Outline) → List (Value × Value)
  | [] => []
  | (k, o) :: es => (.text k.readBack, o.value) :: entryValues es

end

/-- The keys and values that are read for entries. -/
def fields (es : List (Site × Outline)) : List (String × Value) :=
  es.map fun (k, o) => (k.readBack, o.value)

theorem entryValues_eq : ∀ es : List (Site × Outline),
    entryValues es = Value.texts (fields es)
  | [] => rfl
  | (k, o) :: es => congrArg ((Value.text k.readBack, o.value) :: ·) (entryValues_eq es)

mutual

/-- The sites of the texts that are drawn. -/
def sites : Outline → List Site
  | .text s => [s]
  | .list _ os => itemSites os
  | .map es => entrySites es
  | .anchored _ o => o.sites
  | .atom _ | .alias _ _ => []

/-- The sites in items. -/
def itemSites : List Outline → List Site
  | [] => []
  | o :: os => o.sites ++ itemSites os

/-- The sites in entries. -/
def entrySites : List (Site × Outline) → List Site
  | [] => []
  | (k, o) :: es => k :: (o.sites ++ entrySites es)

end

mutual

/-- The tokens of an outline. -/
def tokens : Outline → List Token
  | .text s => [.scalar s.readBack (s.style == .plain)]
  | .atom v => [.scalar (atomText v) true]
  | .list _ [] => [.flowSequenceStart, .flowSequenceEnd]
  | .list loose (o :: os) =>
    let items := .blockEntry :: (o.tokens ++ itemTokens os)
    if loose then items else .blockSequenceStart :: (items ++ [.blockEnd])
  | .map [] => [.flowMappingStart, .flowMappingEnd]
  | .map ((k, o) :: es) =>
    .blockMappingStart :: .key :: .scalar k.readBack (k.style == .plain) :: .value ::
      (o.tokens ++ entryTokens es ++ [.blockEnd])
  | .anchored name o => .anchor name :: o.tokens
  | .alias name _ => [.alias name]

/-- The tokens of items. -/
def itemTokens : List Outline → List Token
  | [] => []
  | o :: os => .blockEntry :: (o.tokens ++ itemTokens os)

/-- The tokens of entries. -/
def entryTokens : List (Site × Outline) → List Token
  | [] => []
  | (k, o) :: es =>
    .key :: .scalar k.readBack (k.style == .plain) :: .value :: (o.tokens ++ entryTokens es)

end

/-- Whether each key in a line can still be taken for one. -/
def fits (o : Outline) : Bool := o.sites.all Site.fits

end Outline

/-! ## The outline of a value -/

/-- The text of a key. -/
def keyText (k : Value) : String := k.text?.getD ""

/-- Whether a text can stand before a colon in one line. -/
def isSimpleText (s : String) : Bool :=
  decide (s.length < 123) && !(Traits.of s.toList).empty && !(Traits.of s.toList).multiline

/-- The labels of what is drawn already, and what is read for it. -/
abbrev Drawn := List (Nat × Value)

mutual

/-- The outline of a value at a place, and what is drawn then. -/
def outline (anchors : List Nat) (inMapping : Bool) (indent : Option Nat) (fresh : Bool) :
    Value → Drawn → Outline × Drawn
  | .shared l v, done =>
    match anchorName anchors l with
    | none => outline anchors inMapping indent fresh v done
    | some name =>
      match done.lookup l with
      | some w => (.alias name w, done)
      | none =>
        -- the label is taken from here on, but nothing inside can refer to it
        let (o, done) := outline anchors inMapping indent false v ((l, .again l) :: done)
        (.anchored name o, (l, o.value) :: done)
  | .list xs, done =>
    let loose := inMapping && !fresh
    let (os, done) := outlineItems anchors (inner indent loose) xs done
    (.list loose os, done)
  | .map es, done =>
    let (os, done) := outlineEntries anchors (inner indent false) es done
    (.map os, done)
  | .text s, done => (.text ⟨s, continued indent, false⟩, done)
  | v, done => (.atom v, done)

/-- The outlines of the items of a list. -/
def outlineItems (anchors : List Nat) (indent : Nat) : List Value → Drawn → List Outline × Drawn
  | [], done => ([], done)
  | x :: xs, done =>
    let (o, done) := outline anchors false (some indent) true x done
    let (os, done) := outlineItems anchors indent xs done
    (o :: os, done)

/-- The outlines of the entries of a mapping. -/
def outlineEntries (anchors : List Nat) (indent : Nat) :
    List (Value × Value) → Drawn → List (Site × Outline) × Drawn
  | [], done => ([], done)
  | (k, v) :: es, done =>
    let key := keyText k
    let simple := isSimpleText key
    let (o, done) := outline anchors true (some indent) (!simple) v done
    let (os, done) := outlineEntries anchors indent es done
    ((⟨key, indent + 2, simple⟩, o) :: os, done)

end

section Shared

variable {anchors : List Nat} {inMapping fresh : Bool} {indent : Option Nat} {l : Nat} {v w : Value}
  {name : String} {done : Drawn}

/-- A shared value without an anchor has the outline of the value. -/
theorem outline_unnamed (hname : anchorName anchors l = none) :
    outline anchors inMapping indent fresh (.shared l v) done =
      outline anchors inMapping indent fresh v done := by
  rw [outline, hname]

/-- What is drawn already is referred to. -/
theorem outline_again (hname : anchorName anchors l = some name) (h : done.lookup l = some w) :
    outline anchors inMapping indent fresh (.shared l v) done = (.alias name w, done) := by
  rw [outline, hname]
  simp only [h]

/-- What is not drawn yet has its anchor. -/
theorem outline_anchored (hname : anchorName anchors l = some name) (h : done.lookup l = none) :
    outline anchors inMapping indent fresh (.shared l v) done =
      let p := outline anchors inMapping indent false v ((l, .again l) :: done)
      (.anchored name p.1, (l, p.1.value) :: p.2) := by
  rw [outline, hname]
  simp only [h]

end Shared

/-- The outline of the value of a whole text. -/
def layout (v : Value) : Outline := (outline (anchors v) false none true v []).1

end Yaml

end GraphPaths
