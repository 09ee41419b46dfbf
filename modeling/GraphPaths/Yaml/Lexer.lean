import GraphPaths.Yaml.Property

/-!
# From text to tokens

A colon may make a key of what stands before it, so a token that could start a key is remembered until
the line ends or the colon comes, one for each level of brackets. Indentation opens and closes
collections outside brackets.

A text is read only as far as the tokens asked for need it. Where the rules are broken the token
`broken` stands, in the place of the first token that cannot be told without the broken part:
`tokens` gives all tokens up to `streamEnd` or to such a place.
-/

namespace GraphPaths

namespace Yaml

/-- A token that becomes a key when a colon follows. -/
structure PossibleKey where
  /-- The number of tokens before it. -/
  number : Nat
  /-- Whether the indentation allows nothing else. -/
  required : Bool
  index : Nat
  line : Nat
  column : Nat
deriving Repr, DecidableEq

/-- A lexer under way. -/
structure Lexer where
  cursor : Cursor
  /-- The tokens so far, the last first. -/
  reversed : List Token
  count : Nat
  /-- The column of the block under way, negative outside all blocks. -/
  indent : Int
  /-- The columns of the blocks around it. -/
  outerIndents : List Int
  /-- Whether a key may start here. -/
  allowKey : Bool
  /-- The possible key of this level of brackets. -/
  key : Option PossibleKey
  /-- The possible keys of the levels around it. -/
  outerKeys : List (Option PossibleKey)
deriving Repr, DecidableEq

namespace Lexer

/-- A lexer at the start of a text. -/
def start (cs : List Char) : Lexer := ⟨.start cs, [], 0, -1, [], true, none, []⟩

/-- Whether the place is inside brackets. -/
def inFlow (x : Lexer) : Bool := !x.outerKeys.isEmpty

/-- One more token. -/
def push (x : Lexer) (t : Token) : Lexer :=
  { x with reversed := t :: x.reversed, count := x.count + 1 }

/-- One more token, and the cursor after it. -/
def pushAt (x : Lexer) (t : Token) (c : Cursor) : Lexer := { x.push t with cursor := c }

/-- One more token of `n` characters. -/
def pushMark (x : Lexer) (t : Token) (n : Nat) : Lexer := x.pushAt t (x.cursor.forward n)

/-- A token put before one that is there already. -/
def insertAt (x : Lexer) (number : Nat) (t : Token) : Lexer :=
  { x with reversed := x.reversed.insertIdx (x.count - number) t, count := x.count + 1 }

/-! ## Possible keys -/

/-- A possible key that is still one at a place: it is in the same line and not too far back. -/
def fresh (c : Cursor) : Option PossibleKey → Except LoadError (Option PossibleKey)
  | none => .ok none
  | some k =>
    if k.line == c.line && c.index - k.index ≤ 1024 then .ok (some k)
    else if k.required then .error .malformed
    else .ok none

/-- Possible keys that are none any more are forgotten. -/
def dropStale (x : Lexer) : Except LoadError Lexer := do
  let outer ← x.outerKeys.mapM (fresh x.cursor)
  let key ← fresh x.cursor x.key
  return { x with key := key, outerKeys := outer }

/-- The possible key of this level is forgotten. -/
def dropKey (x : Lexer) : Except LoadError Lexer :=
  if x.key.any (·.required) then .error .malformed else .ok { x with key := none }

/-- The next token is remembered as a possible key, where keys are allowed. -/
def saveKey (x : Lexer) : Except LoadError Lexer :=
  if x.allowKey then do
    let x ← x.dropKey
    let c := x.cursor
    let required := !x.inFlow && x.indent == c.column
    return { x with key := some ⟨x.count, required, c.index, c.line, c.column⟩ }
  else .ok x

/-- The number of the first token that may still become a key, or of the next token. -/
def settled (x : Lexer) : Nat :=
  ((x.outerKeys ++ [x.key]).filterMap (Option.map (·.number))).foldl min x.count

/-! ## Blocks -/

/-- The blocks that are indented more than a column end. -/
def unwind (column : Int) : List Int → Lexer → Lexer
  | [], x => x
  | outer :: rest, x =>
    if column < x.indent then
      unwind column rest { x.push .blockEnd with indent := outer, outerIndents := rest }
    else x

/-- The blocks that end before a column, outside brackets. -/
def endBlocks (x : Lexer) (column : Int) : Lexer :=
  if x.inFlow then x else unwind column x.outerIndents x

/-- Whether a column opens a new block. -/
def opens (x : Lexer) (column : Nat) : Bool := x.indent < (column : Int)

/-- A new block at a column. -/
def indentTo (x : Lexer) (column : Nat) : Lexer :=
  { x with indent := column, outerIndents := x.indent :: x.outerIndents }

/-- A block that starts here, if the column opens one, outside brackets; only where a key is
allowed. -/
def openBlock (x : Lexer) (start : Token) : Except LoadError Lexer :=
  if x.inFlow then .ok x
  else if !x.allowKey then .error .malformed
  else if x.opens x.cursor.column then .ok ((x.indentTo x.cursor.column).push start)
  else .ok x

/-! ## One token -/

/-- The place of the next token: blanks, comments and line ends are passed. A new line allows a key
outside brackets. -/
def skip (inFlow : Bool) : Nat → Bool → Cursor → Bool × Cursor
  | 0, allow, c => (allow, c)
  | fuel + 1, allow, c =>
    let c := c.skipSpaces.skipComment
    match c.lineBreak with
    | some (_, c) => skip inFlow fuel (allow || !inFlow) c
    | none => (allow, c)

/-- The lexer at the next token. -/
def advance (x : Lexer) : Except LoadError Lexer := do
  let c := if x.cursor.index == 0 && x.cursor.peek == '\ufeff' then x.cursor.next else x.cursor
  let (allow, c) := skip x.inFlow (c.rest.length + 1) x.allowKey c
  let x ← dropStale { x with cursor := c, allowKey := allow }
  return x.endBlocks c.column

/-- A mark of a document, which ends all blocks. -/
def documentMark (x : Lexer) (t : Token) (n : Nat) : Except LoadError Lexer := do
  let x ← (x.endBlocks (-1)).dropKey
  return { x.pushMark t n with allowKey := false }

/-- A directive. -/
def directive (x : Lexer) : Except LoadError Lexer := do
  let x ← (x.endBlocks (-1)).dropKey
  let (d, c) ← Yaml.directive x.cursor
  return { x.pushAt (.directive d) c with allowKey := false }

/-- An opening bracket. -/
def openBracket (x : Lexer) (t : Token) : Except LoadError Lexer := do
  let x ← x.saveKey
  return { x.pushMark t 1 with allowKey := true, key := none, outerKeys := x.key :: x.outerKeys }

/-- A closing bracket. -/
def closeBracket (x : Lexer) (t : Token) : Except LoadError Lexer := do
  let x ← x.dropKey
  match x.outerKeys with
  | [] => throw .malformed
  | key :: outer => return { x.pushMark t 1 with allowKey := false, key := key, outerKeys := outer }

/-- A comma. -/
def flowEntry (x : Lexer) : Except LoadError Lexer := do
  let x ← x.dropKey
  return { x.pushMark .flowEntry 1 with allowKey := true }

/-- A dash in front of an item. -/
def blockEntry (x : Lexer) : Except LoadError Lexer := do
  let x ← (← x.openBlock .blockSequenceStart).dropKey
  return { x.pushMark .blockEntry 1 with allowKey := true }

/-- A question mark in front of a key. -/
def explicitKey (x : Lexer) : Except LoadError Lexer := do
  let x ← (← x.openBlock .blockMappingStart).dropKey
  return { x.pushMark .key 1 with allowKey := !x.inFlow }

/-- A colon: what was a possible key becomes a key. -/
def value (x : Lexer) : Except LoadError Lexer :=
  match x.key with
  | some k =>
    let x := { x.insertAt k.number .key with key := none, allowKey := false }
    let x :=
      if !x.inFlow && x.opens k.column then
        (x.indentTo k.column).insertAt k.number .blockMappingStart
      else x
    .ok (x.pushMark .value 1)
  | none => do
    let x ← x.openBlock .blockMappingStart
    return { x.pushMark .value 1 with allowKey := !x.inFlow }

/-- A token that may be a key: an alias, a property or a scalar. -/
def keyToken (x : Lexer) (read : Cursor → Except LoadError (Token × Cursor)) :
    Except LoadError Lexer := do
  let x ← x.saveKey
  let (t, c) ← read x.cursor
  return { x.pushAt t c with allowKey := false }

/-- A plain scalar; a new line after it allows a key. -/
def plain (x : Lexer) : Except LoadError Lexer := do
  let x ← x.saveKey
  let (text, ended, c) := plainScalar x.inFlow (x.indent + 1) x.cursor
  return { x.pushAt (.scalar text true) c with allowKey := ended }

/-- A block of lines. -/
def block (x : Lexer) : Except LoadError Lexer := do
  let x ← x.dropKey
  let (text, c) ← blockScalar x.indent x.cursor
  return { x.pushAt (.scalar text false) c with allowKey := true }

/-- Whether a plain scalar starts here. -/
def startsPlain (x : Lexer) : Bool :=
  let c := x.cursor
  let ch := c.peek
  !(isGap ch || "-?:,[]\x7b\x7d#&*!|>'\"%@\x60".toList.contains ch)
    || (!isGap (c.peekAt 1) && (ch == '-' || (!x.inFlow && (ch == '?' || ch == ':'))))

/-- The next token, once the place of it is found; not at the end of the text. -/
def token (x : Lexer) : Except LoadError Lexer :=
  let c := x.cursor
  let gapped := isGap (c.peekAt 1)
  let text := fun (t : String × Cursor) => (Token.scalar t.1 false, t.2)
  match c.peek with
  | '[' => x.openBracket .flowSequenceStart
  | '\x7b' => x.openBracket .flowMappingStart
  | ']' => x.closeBracket .flowSequenceEnd
  | '\x7d' => x.closeBracket .flowMappingEnd
  | ',' => x.flowEntry
  | '*' => x.keyToken fun c => (markedName c).map fun (n, c) => (.alias n, c)
  | '&' => x.keyToken fun c => (markedName c).map fun (n, c) => (.anchor n, c)
  | '!' => x.keyToken tag
  | '\'' | '"' => x.keyToken fun c => (quotedScalar c).map text
  | ch =>
    if ch == '%' && c.column == 0 then x.directive
    else if c.column == 0 && c.atMark ['-', '-', '-'] then x.documentMark .documentStart 3
    else if c.column == 0 && c.atMark ['.', '.', '.'] then x.documentMark .documentEnd 3
    else if ch == '-' && gapped then x.blockEntry
    else if ch == '?' && (x.inFlow || gapped) then x.explicitKey
    else if ch == ':' && (x.inFlow || gapped) then x.value
    else if (ch == '|' || ch == '>') && !x.inFlow then x.block
    else if x.startsPlain then x.plain
    else .error .malformed

/-- The tokens so far up to a number, and then a broken place. -/
def broken (x : Lexer) (number : Nat) (e : LoadError) : List Token :=
  (x.reversed.drop (x.count - number)).reverse ++ [.broken e]

/-- The tokens from here to the end of the text, after those so far. -/
def finish : Nat → Lexer → List Token
  | 0, x => x.broken x.count .malformed
  | fuel + 1, x =>
    match x.dropStale with
    | .error e => x.broken x.settled e
    | .ok x =>
      let step := do
        let y ← x.advance
        if y.cursor.rest.isEmpty then
          let y ← (y.endBlocks (-1)).dropKey
          return (true, y.push .streamEnd)
        else
          let y ← y.token
          return (false, y)
      match step with
      | .error e => x.broken x.settled e
      | .ok (true, y) => y.reversed.reverse
      | .ok (false, y) => finish fuel y

end Lexer

/-- Whether a character may stand in a text. -/
def isTextChar (c : Char) : Bool :=
  c == '\t' || c == '\n' || c == '\r' || (' ' ≤ c && c ≤ '~') || c == '\x85'
    || ('\xa0' ≤ c && c ≤ '\ufffd') || 0x10000 ≤ c.toNat

/-- The tokens of a text. -/
def tokens (text : String) : List Token :=
  let cs := text.toList
  if cs.all isTextChar then (Lexer.start cs).finish (cs.length + 2)
  else [.broken .malformed]

end Yaml

end GraphPaths
