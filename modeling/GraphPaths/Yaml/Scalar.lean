import GraphPaths.Text.Digit
import GraphPaths.Yaml.Cursor
import GraphPaths.Yaml.LoadError

/-!
# Scalars as they are written

The four ways to write a scalar: plain, in single or double quotes, and as a block of lines. Each
reader takes the place where the scalar starts and gives its text and the place after it. A line break
within quotes or a plain scalar is a blank, and further ones stay line feeds.
-/

namespace GraphPaths

namespace Yaml

/-- A line break folded: a blank, unless more breaks follow or it is a separator of its own. -/
def folded (first : Char) (more : List Char) : List Char :=
  (if first != '\n' then [first] else if more.isEmpty then [' '] else []) ++ more

/-! ## Quoted scalars -/

/-- The line breaks that follow one inside quotes, with the blanks around them left out. -/
def quotedBreaks : Nat → Cursor → Except LoadError (List Char × Cursor)
  | 0, _ => .error .malformed
  | fuel + 1, c =>
    if c.atDocumentMark then .error .malformed
    else
      let c := c.skipWhile fun x => x == ' ' || x == '\t'
      match c.lineBreak with
      | none => .ok ([], c)
      | some (b, c) => do
        let (more, c) ← quotedBreaks fuel c
        return (b :: more, c)

/-- The blanks and line breaks inside quotes. -/
def quotedSpaces (fuel : Nat) (c : Cursor) : Except LoadError (List Char × Cursor) :=
  let (blanks, c) := c.takeWhile fun x => x == ' ' || x == '\t'
  if c.rest.isEmpty then .error .malformed
  else match c.lineBreak with
    | none => .ok (blanks, c)
    | some (b, c) => do
      let (more, c) ← quotedBreaks fuel c
      return (folded b more, c)

/-- The character that a letter after a backslash stands for. -/
def escapes : List (Char × Char) :=
  [('0', '\x00'), ('a', '\x07'), ('b', '\x08'), ('t', '\t'), ('\t', '\t'), ('n', '\n'),
   ('v', '\x0b'), ('f', '\x0c'), ('r', '\r'), ('e', '\x1b'), (' ', ' '), ('"', '"'),
   ('\\', '\\'), ('/', '/'), ('N', '\x85'), ('_', '\xa0'), ('L', '\u2028'), ('P', '\u2029')]

/-- The number of hexadecimal digits after a letter. -/
def escapeWidth : Char → Option Nat
  | 'x' => some 2
  | 'u' => some 4
  | 'U' => some 8
  | _ => none

/-- The number of hexadecimal digits. -/
def hexNumber (cs : List Char) : Option Nat :=
  cs.foldlM (fun n c => (Text.hexDigit c).map (n * 16 + ·)) 0

/-- The code that the second half of a character adds, where the escape for it comes next. -/
def secondHalf (c : Cursor) : Option Nat :=
  match c.rest with
  | '\\' :: 'u' :: r =>
    if r.length < 4 then none
    else (hexNumber (r.take 4)).bind fun n =>
      if 0xDC00 ≤ n && n < 0xE000 then some (n - 0xDC00) else none
  | _ => none

/-- The character with a code; half a character becomes the replacement character. -/
def charOf (code : Nat) : Except LoadError Char :=
  if 0x10FFFF < code then .error (.codePoint code)
  else if 0xD800 ≤ code && code < 0xE000 then .ok '\ufffd'
  else .ok (Char.ofNat code)

/-- What an escape after a backslash stands for. -/
def escaped (fuel : Nat) (c : Cursor) : Except LoadError (List Char × Cursor) :=
  match escapes.lookup c.peek with
  | some x => if c.rest.isEmpty then .error .malformed else .ok ([x], c.next)
  | none =>
    match escapeWidth c.peek with
    | some width =>
      let digits := (c.next.rest.take width)
      match hexNumber digits with
      | none => .error .malformed
      | some code =>
        let after := c.next.forward width
        if digits.length < width then .error .malformed
        else if 0xD800 ≤ code && code < 0xDC00 then
          match secondHalf after with
          | some low =>
            (charOf (0x10000 + (code - 0xD800) * 0x400 + low)).map fun x => ([x], after.forward 6)
          | none => (charOf code).map fun x => ([x], after)
        else (charOf code).map fun x => ([x], after)
    | none =>
      match c.lineBreak with
      | some (_, c) => quotedBreaks fuel c
      | none => .error .malformed

/-- The characters of a scalar in quotes up to its end. -/
def quotedChars (double : Bool) : Nat → Cursor → Except LoadError (List Char × Cursor)
  | 0, _ => .error .malformed
  | fuel + 1, c => do
    let x := c.peek
    if c.rest.isEmpty then throw .malformed
    else if x == ' ' || x == '\t' || isLineEnd x then
      let (text, c) ← quotedSpaces (fuel + 1) c
      let (rest, c) ← quotedChars double fuel c
      return (text ++ rest, c)
    else if double then
      if x == '"' then return ([], c.next)
      else if x == '\\' then
        let (text, c) ← escaped (fuel + 1) c.next
        let (rest, c) ← quotedChars double fuel c
        return (text ++ rest, c)
      else
        let (rest, c) ← quotedChars double fuel c.next
        return (x :: rest, c)
    else if x == '\'' then
      if c.peekAt 1 == '\'' then
        let (rest, c) ← quotedChars double fuel (c.forward 2)
        return ('\'' :: rest, c)
      else return ([], c.next)
    else
      let (rest, c) ← quotedChars double fuel c.next
      return (x :: rest, c)

/-- A scalar in quotes. -/
def quotedScalar (c : Cursor) : Except LoadError (String × Cursor) := do
  let (cs, c) ← quotedChars (c.peek == '"') (c.rest.length + 1) c.next
  return (String.ofList cs, c)

/-! ## Plain scalars -/

/-- The characters of a plain scalar up to a gap or an indicator. -/
def plainWord (inFlow : Bool) : List Char → List Char
  | [] => []
  | x :: r =>
    let next := r.headD '\x00'
    let flowIndicator := inFlow && ",[]\x7b\x7d".toList.contains next
    if isGap x || (x == ':' && (isGap next || flowIndicator))
        || (inFlow && ",?[]\x7b\x7d".toList.contains x) then []
    else x :: plainWord inFlow r

/-- The line breaks that follow one in a plain scalar, and whether a document ends there. -/
def plainBreaks : Nat → Cursor → List Char × Bool × Cursor
  | 0, c => ([], false, c)
  | fuel + 1, c =>
    if c.peek == ' ' then plainBreaks fuel c.next
    else match c.lineBreak with
      | none => ([], false, c)
      | some (b, c) =>
        if c.atDocumentMark then ([b], true, c)
        else
          let (more, ended, c) := plainBreaks fuel c
          (b :: more, ended, c)

/-- What stands between two words of a plain scalar, or nothing where it ends; and whether a line
was ended. -/
def plainSpaces (fuel : Nat) (c : Cursor) : List Char × Bool × Cursor :=
  let (blanks, c) := c.takeWhile (· == ' ')
  match c.lineBreak with
  | none => (blanks, false, c)
  | some (b, c) =>
    if c.atDocumentMark then ([], true, c)
    else
      let (more, ended, c) := plainBreaks fuel c
      if ended then ([], true, c) else (folded b more, true, c)

/-- The text of a plain scalar after `before`, the place after it, and whether a line was ended since
its last word. -/
def plainChars (inFlow : Bool) (indent : Int) :
    Nat → List Char → Bool → Cursor → List Char × Bool × Cursor
  | 0, _, ended, c => ([], ended, c)
  | fuel + 1, before, ended, c =>
    if c.peek == '#' then ([], ended, c)
    else
      let word := plainWord inFlow c.rest
      if word.isEmpty then ([], ended, c)
      else
        let (spaces, ended, c) := plainSpaces (fuel + 1) (c.forward word.length)
        if spaces.isEmpty || c.peek == '#' || (!inFlow && (c.column : Int) < indent) then
          (before ++ word, ended, c)
        else
          let (rest, ended, c) := plainChars inFlow indent fuel spaces ended c
          (before ++ word ++ rest, ended, c)

/-- A plain scalar, and whether a line was ended after it. -/
def plainScalar (inFlow : Bool) (indent : Int) (c : Cursor) : String × Bool × Cursor :=
  let (cs, ended, c) := plainChars inFlow indent (c.rest.length + 1) [] false c
  (String.ofList cs, ended, c)

/-! ## Blocks of lines -/

/-- What becomes of the line breaks at the end of a block. -/
inductive Chomp where
  /-- One is kept. -/
  | clip
  /-- None is kept. -/
  | strip
  /-- All are kept. -/
  | keep
deriving Repr, DecidableEq

/-- The mark for the end of a block, if there is one. -/
def chompMark (c : Cursor) : Option Chomp :=
  if c.peek == '+' then some .keep else if c.peek == '-' then some .strip else none

/-- The digit that gives the indentation of a block, if there is one. -/
def indentMark (c : Cursor) : Except LoadError (Option Nat × Cursor) :=
  match Text.asciiDigit c.peek with
  | some 0 => .error .malformed
  | some n => .ok (some n, c.next)
  | none => .ok (none, c)

/-- The marks after the indicator of a block. -/
def blockMarks (c : Cursor) : Except LoadError (Chomp × Option Nat × Cursor) :=
  match chompMark c with
  | some chomp => (indentMark c.next).map fun (n, c) => (chomp, n, c)
  | none => do
    let (n, c) ← indentMark c
    match n, chompMark c with
    | some n, some chomp => return (chomp, some n, c.next)
    | n, _ => return (.clip, n, c)

/-- The place after blanks, a comment and the end of a line. -/
def restOfLine (c : Cursor) : Except LoadError Cursor :=
  let c := c.skipSpaces.skipComment
  if isLineStop c.peek then
    .ok (match c.lineBreak with
      | some (_, c) => c
      | none => c)
  else .error .malformed

/-- The line breaks before the first line of a block, and the greatest column of a blank among
them. -/
def blockIndentation : Nat → Nat → Cursor → List Char × Nat × Cursor
  | 0, most, c => ([], most, c)
  | fuel + 1, most, c =>
    if c.peek == ' ' then blockIndentation fuel (max most c.next.column) c.next
    else match c.lineBreak with
      | none => ([], most, c)
      | some (b, c) =>
        let (more, most, c) := blockIndentation fuel most c
        (b :: more, most, c)

/-- The place after blanks, up to a column. -/
def skipTo (column : Nat) : Nat → Cursor → Cursor
  | 0, c => c
  | fuel + 1, c =>
    if c.column < column && c.peek == ' ' then skipTo column fuel c.next else c

/-- The empty lines of a block. -/
def blockBreaks (column : Nat) : Nat → Cursor → List Char × Cursor
  | 0, c => ([], c)
  | fuel + 1, c =>
    let c := skipTo column (fuel + 1) c
    match c.lineBreak with
    | none => ([], c)
    | some (b, c) =>
      let (more, c) := blockBreaks column fuel c
      (b :: more, c)

/-- The lines of a block after some empty ones. Yields the text, the break that ends the last line,
the empty lines after it, and the place after the block. -/
def blockLines (fold : Bool) (column : Nat) :
    Nat → List Char → Cursor → List Char × List Char × List Char × Cursor
  | 0, breaks, c => ([], [], breaks, c)
  | fuel + 1, breaks, c =>
    if c.column != column || c.rest.isEmpty then ([], [], breaks, c)
    else
      let indented := c.peek == ' ' || c.peek == '\t'
      let (line, c) := c.takeWhile fun x => !isLineStop x
      let (ending, c) := match c.lineBreak with
        | some (b, c) => ([b], c)
        | none => ([], c)
      let (more, c) := blockBreaks column (fuel + 1) c
      if c.column == column && !c.rest.isEmpty then
        let joint :=
          if fold && ending == ['\n'] && !indented && c.peek != ' ' && c.peek != '\t' then
            if more.isEmpty then [' '] else []
          else ending
        let (rest, last, after, c) := blockLines fold column fuel more c
        (breaks ++ line ++ joint ++ rest, last, after, c)
      else (breaks ++ line, ending, more, c)

/-- A block of lines inside an indentation. -/
def blockScalar (indent : Int) (c : Cursor) : Except LoadError (String × Cursor) := do
  let fold := c.peek == '>'
  let fuel := c.rest.length + 1
  let (chomp, increment, c) ← blockMarks c.next
  if !(c.peek == ' ' || isLineStop c.peek) then throw .malformed
  let c ← restOfLine c
  let least := (max (indent + 1) 1).toNat
  let (breaks, column, c) := match increment with
    | none =>
      let (breaks, most, c) := blockIndentation fuel 0 c
      (breaks, max least most, c)
    | some n =>
      let column := least + n - 1
      let (breaks, c) := blockBreaks column fuel c
      (breaks, column, c)
  let (text, last, after, c) := blockLines fold column fuel breaks c
  let tail := match chomp with
    | .clip => last
    | .strip => []
    | .keep => last ++ after
  return (String.ofList (text ++ tail), c)

end Yaml

end GraphPaths
