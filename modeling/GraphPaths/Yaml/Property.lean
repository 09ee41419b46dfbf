import GraphPaths.Text.Utf8
import GraphPaths.Yaml.Scalar
import GraphPaths.Yaml.Token

/-!
# Directives, anchors and tags

The tokens that say something about a node or a document. A tag is `!<name>`, a lone `!`, or a handle
followed by a name; bytes of a name may be written as `%41`.
-/

namespace GraphPaths

namespace Yaml

/-! ## Names -/

/-- Characters of the names of anchors, directives and handles. -/
def isNameChar (c : Char) : Bool :=
  ('0' ≤ c && c ≤ '9') || ('A' ≤ c && c ≤ 'Z') || ('a' ≤ c && c ≤ 'z') || c == '-' || c == '_'

/-- Characters of a tag's name. -/
def isUriChar (c : Char) : Bool := isNameChar c || ";/?:@&=+$,.!~*'()[]%".toList.contains c

/-- A blank, the end of a line or the end of the text. -/
def endsWord (c : Char) : Bool := c == ' ' || isLineStop c

/-- A name of at least one character. -/
def name (c : Cursor) : Except LoadError (String × Cursor) :=
  let (cs, c) := c.takeWhile isNameChar
  if cs.isEmpty then .error .malformed else .ok (String.ofList cs, c)

/-- The bytes written as a percent sign and two hexadecimal digits. -/
def escapedBytes : List Char → Option (List Nat)
  | '%' :: a :: b :: r => do
    let high ← Text.hexDigit a
    let low ← Text.hexDigit b
    let rest ← escapedBytes r
    return (16 * high + low) :: rest
  | '%' :: _ => none
  | _ => some []

/-- The characters of a tag's name, with escaped bytes read as UTF-8. -/
def uriChars : Nat → Cursor → Except LoadError (List Char × Cursor)
  | 0, c => .ok ([], c)
  | fuel + 1, c =>
    if c.peek == '%' then
      match escapedBytes c.rest with
      | none => .error .malformed
      | some bytes =>
        match Text.Utf8.decode bytes with
        | .error _ => .error .malformed
        | .ok text => (uriChars fuel (c.forward (3 * bytes.length))).map fun (cs, c) =>
          (text.toList ++ cs, c)
    else if isUriChar c.peek then
      (uriChars fuel c.next).map fun (cs, d) => (c.peek :: cs, d)
    else .ok ([], c)

/-- A tag's name of at least one character. -/
def uri (c : Cursor) : Except LoadError (String × Cursor) := do
  let (cs, d) ← uriChars (c.rest.length + 1) c
  if d.index == c.index then throw .malformed
  return (String.ofList cs, d)

/-- The handle `!`, `!!` or `!name!` of a tag; the first only before a blank. -/
def tagHandle (c : Cursor) : Except LoadError (String × Cursor) :=
  if c.peek != '!' then .error .malformed
  else if c.peekAt 1 == ' ' then .ok ("!", c.next)
  else
    let (cs, d) := c.next.takeWhile isNameChar
    if d.peek == '!' then .ok (String.ofList ('!' :: cs ++ ['!']), d.next) else .error .malformed

/-! ## Properties of nodes -/

/-- The name after the mark of an anchor or an alias. -/
def markedName (c : Cursor) : Except LoadError (String × Cursor) := do
  let (text, c) ← name c.next
  if !(isGap c.peek || "?:,]\x7d%@\x60".toList.contains c.peek) then throw .malformed
  return (text, c)

/-- Whether a second exclamation mark stands in the word after the first. -/
def hasHandle (c : Cursor) : Bool :=
  (c.next.rest.takeWhile fun x => !endsWord x).contains '!'

/-- A tag. -/
def tag (c : Cursor) : Except LoadError (Token × Cursor) := do
  let after := c.peekAt 1
  let (token, c) ←
    if after == '<' then do
      let (suffix, c) ← uri (c.forward 2)
      if c.peek != '>' then throw .malformed
      pure (Token.tag none suffix, c.next)
    else if isGap after then pure (Token.tag none "!", c.next)
    else do
      let (handle, c) ← if hasHandle c then tagHandle c else pure ("!", c.next)
      let (suffix, c) ← uri c
      pure (Token.tag (some handle) suffix, c)
  if !endsWord c.peek then throw .malformed
  return (token, c)

/-! ## Directives -/

/-- A decimal number. -/
def versionNumber (c : Cursor) : Except LoadError (Int × Cursor) := do
  let (cs, c) := c.takeWhile fun x => (Text.asciiDigit x).isSome
  if cs.isEmpty then throw .malformed
  let n ← (Numeral.int 10 (String.ofList cs)).mapError .number
  return (n, c)

/-- The version after the word `YAML`. -/
def versionDirective (c : Cursor) : Except LoadError (Directive × Cursor) := do
  let (major, c) ← versionNumber c.skipSpaces
  if c.peek != '.' then throw .malformed
  let (minor, c) ← versionNumber c.next
  if !endsWord c.peek then throw .malformed
  return (.version major minor, c)

/-- The handle and its expansion after the word `TAG`. -/
def handleDirective (c : Cursor) : Except LoadError (Directive × Cursor) := do
  let (handle, c) ← tagHandle c.skipSpaces
  if c.peek != ' ' then throw .malformed
  let (expansion, c) ← uri c.skipSpaces
  if !endsWord c.peek then throw .malformed
  return (.handle handle expansion, c)

/-- A directive and the rest of its line. -/
def directive (c : Cursor) : Except LoadError (Directive × Cursor) := do
  let (word, c) ← name c.next
  if !endsWord c.peek then throw .malformed
  let (d, c) ←
    if word == "YAML" then versionDirective c
    else if word == "TAG" then handleDirective c
    else pure (Directive.other, c.skipWhile fun x => !isLineStop x)
  let c ← restOfLine c
  return (d, c)

end Yaml

end GraphPaths
