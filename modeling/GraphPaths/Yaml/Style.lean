import GraphPaths.Text.Digit
import GraphPaths.Yaml.Blank
import GraphPaths.Yaml.Implicit
import GraphPaths.Yaml.Pen

/-!
# Scalar styles

A text is written plain when it has no character that would be read as something else, in single
quotes when it holds only printable characters, and in double quotes with escapes otherwise.
`Traits.of` looks at the characters, `styleOf` decides, and `writeScalar` writes; long lines are
folded at single spaces.
-/

namespace GraphPaths

namespace Yaml

/-! ## What stands in a text -/

/-- Whether a character can stand in a text without an escape. -/
def isPlainChar (c : Char) : Bool :=
  c == '\n' || (' ' ≤ c && c ≤ '~') ||
    ((c == '\x85' || ('\xa0' ≤ c && c ≤ '\ufffd') || (0x10000 ≤ c.toNat && c.toNat < 0x10ffff))
      && c != '\ufeff')

/-- Characters that begin something else than a plain scalar. -/
def isLeadIndicator (c : Char) : Bool := "#,[]\x7b\x7d&*!|>'\"%@`".toList.contains c

/-- Whether a text has a character that a plain scalar cannot have: at its start, or a colon before
a gap, or a number sign after one. -/
def hasIndicatorAfter : Char → List Char → Bool
  | _, [] => false
  | before, c :: r =>
    let gapNext := match r with
      | [] => true
      | d :: _ => isGap d
    (c == ':' && gapNext) || (c == '#' && isGap before) || hasIndicatorAfter c r

/-- Whether a text cannot be a plain scalar because of an indicator. -/
def hasIndicator (cs : List Char) : Bool :=
  match cs with
  | [] => false
  | c :: r =>
    let gapNext := match r with
      | [] => true
      | d :: _ => isGap d
    "---".toList.isPrefixOf cs || "...".toList.isPrefixOf cs || isLeadIndicator c
      || ((c == '?' || c == ':' || c == '-') && gapNext) || hasIndicatorAfter c r

/-- Whether a character of one class stands right before one of another. -/
def hasPair (p q : Char → Bool) : List Char → Bool
  | a :: b :: r => (p a && q b) || hasPair p q (b :: r)
  | _ => false

/-- What decides how a text can be written. -/
structure Traits where
  empty : Bool
  multiline : Bool
  /-- Whether it can be written plain. -/
  plain : Bool
  /-- Whether it can be written in single quotes. -/
  single : Bool
  /-- Whether it can be written as a block of lines. -/
  block : Bool
deriving Repr, DecidableEq

/-- The traits of a text. -/
def Traits.of (cs : List Char) : Traits :=
  match cs with
  | [] => ⟨true, false, true, true, false⟩
  | first :: _ =>
    let last := cs.getLastD first
    let isSpace := fun c : Char => c == ' '
    let edge := fun c => isSpace c || isBreak c
    let breaks := cs.any isBreak
    let breakSpace := hasPair isBreak isSpace cs
    let special := hasPair isSpace isBreak cs || cs.any fun c => !isPlainChar c
    { empty := false
      multiline := breaks
      plain := !(edge first || edge last || breakSpace || special || breaks || hasIndicator cs)
      single := !(breakSpace || special)
      block := !(isSpace last || special) }

/-! ## The choice of a style -/

/-- How a scalar is written. -/
inductive Style where
  | plain
  | single
  | double
  | block
deriving Repr, DecidableEq

/-- The style of a scalar: `bare` says that it reads back as the same when plain, `wantsBlock` that
it should be a block of lines, `key` that it stands before a colon in one line. -/
def styleOf (bare wantsBlock key : Bool) (t : Traits) : Style :=
  if !wantsBlock && bare && !(key && (t.empty || t.multiline)) && t.plain then .plain
  else if wantsBlock && !key && t.block then .block
  else if !wantsBlock && t.single && !(key && t.multiline) then .single
  else .double

/-! ## Plain and single-quoted texts -/

/-- The three classes of characters that a writer treats alike. -/
inductive RunKind where
  | spaces
  | breaks
  | other
deriving Repr, DecidableEq

/-- The class of a character. -/
def runKind (c : Char) : RunKind :=
  if c == ' ' then .spaces else if isBreak c then .breaks else .other

/-- A text in runs of characters of one class. -/
def runs (cs : List Char) : List (List Char) := cs.splitBy fun a b => runKind a == runKind b

/-- Line breaks inside single quotes: the first is doubled, as a single one would be a space. -/
def writeBreaks (p : Pen) (indent : Nat) (brs : List Char) : Pen :=
  let p := if brs.head? == some '\n' then p.lineBreak '\n' else p
  (brs.foldl Pen.lineBreak p).indent indent

/-- The runs of a text in single quotes; the first and the last are not folded. -/
def writeSingleRuns (p : Pen) (indent : Nat) (split : Bool) : Bool → List (List Char) → Pen
  | _, [] => p
  | first, run :: rest =>
    let c := run.headD ' '
    let p := match runKind c with
      | .spaces =>
        if run.length == 1 && Pen.width < p.column && split && !first && !rest.isEmpty then
          p.indent indent
        else p.write run
      | .breaks => writeBreaks p indent run
      | .other => p.write (run.flatMap fun c => if c == '\'' then [c, c] else [c])
    writeSingleRuns p indent split false rest

/-- A text in single quotes. -/
def writeSingle (p : Pen) (indent : Nat) (split : Bool) (cs : List Char) : Pen :=
  (writeSingleRuns (p.mark "'" true false) indent split true (runs cs)).mark "'" false false

/-- The runs of a text without quotes. -/
def writePlainRuns (p : Pen) (indent : Nat) (split : Bool) : List (List Char) → Pen
  | [] => p
  | run :: rest =>
    let p :=
      if run == [' '] && Pen.width < p.column && split then (p.indent indent).settle
      else p.write run
    writePlainRuns p indent split rest

/-- A text without quotes; at the root it leaves the document open. -/
def writePlain (p : Pen) (root : Bool) (indent : Nat) (split : Bool) (cs : List Char) : Pen :=
  let p := { p with openEnded := p.openEnded || root }
  if cs.isEmpty then p
  else writePlainRuns (if p.spaced then p else p.write [' ']).settle indent split (runs cs)

/-! ## Double-quoted texts -/

/-- The characters with an escape of one letter. -/
def escapeLetters : List (Char × Char) :=
  [('\x00', '0'), ('\x07', 'a'), ('\x08', 'b'), ('\t', 't'), ('\n', 'n'), ('\x0b', 'v'),
   ('\x0c', 'f'), ('\r', 'r'), ('\x1b', 'e'), ('"', '"'), ('\\', '\\'), ('\x85', 'N'),
   ('\xa0', '_'), ('\u2028', 'L'), ('\u2029', 'P')]

/-- Whether a character must be escaped in double quotes. -/
def needsEscape (c : Char) : Bool :=
  c == '"' || c == '\\' || c == '\x85' || c == '\u2028' || c == '\u2029' || c == '\ufeff'
    || !((' ' ≤ c && c ≤ '~') || ('\xa0' ≤ c && c ≤ '\ufffd'))

/-- The escape of a character. -/
def escape (c : Char) : List Char :=
  match escapeLetters.lookup c with
  | some l => ['\\', l]
  | none =>
    if c.toNat ≤ 0xff then '\\' :: 'x' :: Text.hexPadded true 2 c.toNat
    else if c.toNat ≤ 0xffff then '\\' :: 'u' :: Text.hexPadded true 4 c.toNat
    else '\\' :: 'U' :: Text.hexPadded true 8 c.toNat

/-- The characters of a text in double quotes. `pending` holds those not yet written, the last
first; a line is folded with a backslash before a space, or where nothing is pending, except next
to the ends of the text. -/
def writeDoubleChars (indent : Nat) (split : Bool) :
    Bool → List Char → Pen → List Char → Pen
  | _, pending, p, [] => p.write pending.reverse
  | first, pending, p, c :: r =>
    let special := needsEscape c
    let inner := !first && !r.isEmpty
    let (p, pending) :=
      if special then ((p.write pending.reverse).write (escape c), []) else (p, pending)
    let reach := if special then p.column - 1 else p.column + pending.length
    let (p, pending) :=
      if inner && (c == ' ' || pending.isEmpty) && Pen.width < reach && split then
        let p := ((p.write (pending.reverse ++ ['\\'])).indent indent).settle
        let next := if special then r.headD 'x' else c
        (if next == ' ' then p.write ['\\'] else p, [])
      else (p, pending)
    writeDoubleChars indent split false (if special then pending else c :: pending) p r

/-- A text in double quotes. -/
def writeDouble (p : Pen) (indent : Nat) (split : Bool) (cs : List Char) : Pen :=
  (writeDoubleChars indent split true [] (p.mark "\"" true false) cs).mark "\"" false false

/-! ## Blocks of lines -/

/-- The lines of a text, each indented. -/
def writeBlockLines (p : Pen) (indent : Nat) : List (List Char) → Pen
  | [] => p
  | line :: rest =>
    let p := if line.isEmpty then p else
      let q := p.indent indent
      { q with written := q.written ++ String.ofList line }
    match rest with
    | [] => p
    | _ => writeBlockLines (p.lineBreak '\n') indent rest

/-- The lines of a text that end in a line feed, as a block. -/
def writeBlock (p : Pen) (indent : Nat) (lines : List (List Char)) : Pen :=
  writeBlockLines ((p.mark "|" true false).lineBreak '\n') indent (lines ++ [[]])

end Yaml

end GraphPaths
