import GraphPaths.Number.Fixed
import GraphPaths.Number.Numeral
import GraphPaths.Text.Case
import GraphPaths.Value.Text

/-!
# Templates

A template is a text with places for values. A place starts with a percent sign and ends with a letter
that tells how its value is written: as a text (`s`, `r`, `a`), an integer (`d`, `i`, `u`, `o`, `x`, `X`),
a real (`e`, `f`, `g` and their capitals) or a character (`c`). Between them stand, each if wanted, the
name of a value in round brackets, flags, a width and a precision; a star for one of the two takes the
next value. Two percent signs are one.

`Template.fill` puts values into places in their order. Where the only value is a mapping, places with
names take what it holds. A `TemplateError` tells the first thing that does not fit.
-/

namespace GraphPaths

/-- Why a template cannot be filled. -/
inductive TemplateError where
  /-- There is no value left for a place. -/
  | tooFew
  /-- There is a value left without a place. -/
  | tooMany
  /-- The template ends inside a place. -/
  | incomplete
  /-- The template ends inside the name in a place. -/
  | incompleteName
  /-- A place has a name, and the values have none. -/
  | noMapping
  /-- Nothing has the name in a place. -/
  | noName (name : String)
  /-- A place ends with a character that is no letter of it, at an index of the template. -/
  | letter (c : Char) (index : Nat)
  /-- The value for a star is no integer. -/
  | star
  /-- The value for a star is beyond the integers of a width or of a precision. -/
  | starTooLarge (width : Bool)
  | widthTooLarge
  | precisionTooLarge
  /-- The value is no number of the kind that the letter asks for. -/
  | kind (letter : Char) (kind : String)
  /-- The value is no character and no integer. -/
  | character
  /-- The integer is the code of no character. -/
  | code
  /-- No integer is near to an infinite number. -/
  | infinite
  /-- No integer is near to `nan`. -/
  | nan
  /-- The integer is beyond all finite numbers. -/
  | tooLarge
  | numeral (error : NumeralError)
deriving Repr, DecidableEq

/-- Whether a letter takes integers only. -/
def takesIntegersOnly (letter : Char) : Bool := letter == 'o' || letter == 'x' || letter == 'X'

/-- The message of an error. -/
def TemplateError.message : TemplateError → String
  | .tooFew => "not enough arguments for format string"
  | .tooMany => "not all arguments converted during string formatting"
  | .incomplete => "incomplete format"
  | .incompleteName => "incomplete format key"
  | .noMapping => "format requires a mapping"
  | .noName name => Text.quoted name
  | .letter c index =>
    let n := c.toNat
    let shown := String.ofList [if 31 ≤ n && n < 127 then c else '?']
    let code := String.ofList (Nat.toDigits 16 n)
    s!"unsupported format character '{shown}' (0x{code}) at index {Text.decimal index}"
  | .star => "* wants int"
  | .starTooLarge width =>
    "Python int too large to convert to C " ++ if width then "ssize_t" else "int"
  | .widthTooLarge => "width too big"
  | .precisionTooLarge => "precision too big"
  | .kind c found =>
    let shown := String.ofList ['%', c]
    if takesIntegersOnly c then s!"{shown} format: an integer is required, not {found}"
    else if ['d', 'i', 'u'].contains c then
      s!"{shown} format: a real number is required, not {found}"
    else s!"must be real number, not {found}"
  | .character => "%c requires int or char"
  | .code => "%c arg not in range(0x110000)"
  | .infinite => "cannot convert float infinity to integer"
  | .nan => "cannot convert float NaN to integer"
  | .tooLarge => "int too large to convert to float"
  | .numeral e => e.message

namespace Template

/-! ## Places -/

/-- How the value in a place is written, as far as it does not hang on the letter. -/
structure Layout where
  /-- Whether the value stands at the left of the width. -/
  left : Bool
  /-- Whether a number gets a plus sign. -/
  plus : Bool
  /-- Whether a number without sign gets a blank. -/
  blank : Bool
  /-- Whether the mark of the base, or the point, is kept. -/
  marked : Bool
  /-- Whether a number is filled with noughts. -/
  noughts : Bool
  width : Option Nat
  precision : Option Nat
deriving Repr, DecidableEq, Inhabited

/-- The layout with a flag. -/
def Layout.flag? (l : Layout) : Char → Option Layout
  | '-' => some { l with left := true }
  | '+' => some { l with plus := true }
  | ' ' => some { l with blank := true }
  | '#' => some { l with marked := true }
  | '0' => some { l with noughts := true }
  | _ => none

/-- The layout with the flags at the start of a text, and the rest. -/
def flags (l : Layout) : List Char → Layout × List Char
  | [] => (l, [])
  | c :: r =>
    match l.flag? c with
    | some l' => flags l' r
    | none => (l, c :: r)

/-- The number at the start of a text, if there is one, and the rest. -/
def count (cs : List Char) : Option Nat × List Char :=
  let ds := (cs.takeWhile fun c => (Text.asciiDigit c).isSome).filterMap Text.asciiDigit
  (if ds.isEmpty then none else some (Numeral.ofDigits 10 ds), cs.drop ds.length)

/-- The name up to the bracket that closes it, with the brackets inside it, and the rest; `depth` is
the number of brackets that are open inside it. -/
def name : Nat → List Char → Option (List Char × List Char)
  | _, [] => none
  | 0, ')' :: r => some ([], r)
  | depth, c :: r =>
    let depth := if c == '(' then depth + 1 else if c == ')' then depth - 1 else depth
    (name depth r).map fun (cs, rest) => (c :: cs, rest)

/-- The integer that a star takes from the values, and the values left. -/
def starred (width : Bool) : List Value → Except TemplateError (Int × List Value)
  | [] => .error .tooFew
  | v :: rest =>
    let limit : Nat := Nat.pow 2 (if width then 63 else 31)
    match v.bare with
    | .int i =>
      if -(limit : Int) ≤ i && i < limit then .ok (i, rest) else .error (.starTooLarge width)
    | .bool b => .ok (if b then 1 else 0, rest)
    | _ => .error .star

/-- A layout under way, with what is left of the template and of the values. -/
structure Reading where
  layout : Layout
  text : List Char
  values : List Value

/-- The width at the start of what is left. -/
def readWidth (x : Reading) : Except TemplateError Reading :=
  match x.text with
  | '*' :: r => do
    let (i, values) ← starred true x.values
    let layout := { x.layout with left := x.layout.left || i < 0, width := some i.natAbs }
    return ⟨layout, r, values⟩
  | cs =>
    let (n, r) := count cs
    if (n.getD 0) < Nat.pow 2 63 then
      .ok ⟨{ x.layout with width := n }, r, x.values⟩
    else .error .widthTooLarge

/-- The precision at the start of what is left. -/
def readPrecision (x : Reading) : Except TemplateError Reading :=
  match x.text with
  | '.' :: '*' :: r => do
    let (i, values) ← starred false x.values
    return ⟨{ x.layout with precision := some i.toNat }, r, values⟩
  | '.' :: cs =>
    let (n, r) := count cs
    if (n.getD 0) < Nat.pow 2 31 then
      .ok ⟨{ x.layout with precision := some (n.getD 0) }, r, x.values⟩
    else .error .precisionTooLarge
  | _ => .ok x

/-- What is left without a letter for the size of a number, which does not count. -/
def dropSize : List Char → List Char
  | [] => []
  | c :: r => if c == 'h' || c == 'l' || c == 'L' then r else c :: r

/-! ## Values in places -/

/-- A text with blanks, or noughts after its sign and mark, up to the width of a layout. -/
def Layout.pad (l : Layout) (isNumber : Bool) (sign mark body : List Char) : List Char :=
  let missing := l.width.getD 0 - (sign.length + mark.length + body.length)
  if l.left then sign ++ mark ++ body ++ List.replicate missing ' '
  else if isNumber && l.noughts then sign ++ mark ++ List.replicate missing '0' ++ body
  else List.replicate missing ' ' ++ sign ++ mark ++ body

/-- The sign of a number. -/
def Layout.sign (l : Layout) (negative : Bool) : List Char :=
  if negative then ['-'] else if l.plus then ['+'] else if l.blank then [' '] else []

/-- A character in ASCII: others are escaped by their codes. -/
def asciiChar (c : Char) : List Char :=
  let n := c.toNat
  if n < 0x80 then [c]
  else if n < 0x100 then '\\' :: 'x' :: Text.hexPadded false 2 n
  else if n < 0x10000 then '\\' :: 'u' :: Text.hexPadded false 4 n
  else '\\' :: 'U' :: Text.hexPadded false 8 n

/-- A value as a text, cut to the precision. -/
def Layout.textual (l : Layout) (cs : List Char) : List Char :=
  let cs := match l.precision with
    | some n => cs.take n
    | none => cs
  l.pad false [] [] cs

/-- A number cut to an integer. -/
def truncated : Binary64 → Except TemplateError Int
  | .finite s m e =>
    let (a, b) := Binary64.ratio m e
    .ok (Binary64.signed s (a / b))
  | .infinite _ => .error .infinite
  | .nan => .error .nan

/-- The integer that a letter makes of a value. -/
def integerOf (letter : Char) (v : Value) : Except TemplateError Int :=
  match v.bare with
  | .int i => .ok i
  | .bool b => .ok (if b then 1 else 0)
  | .float x =>
    if takesIntegersOnly letter then .error (.kind letter v.kindName) else truncated x
  | _ => .error (.kind letter v.kindName)

/-- A value as an integer: the precision is the least number of digits. -/
def Layout.integral (l : Layout) (letter : Char) (v : Value) : Except TemplateError (List Char) := do
  let i ← integerOf letter v
  let base := if letter == 'o' then 8 else if takesIntegersOnly letter then 16 else 10
  if base == 10 then discard ((Numeral.ofInt i).mapError .numeral)
  let ds := Nat.toDigits base i.natAbs
  let ds := if letter == 'X' then (Text.upper (String.ofList ds)).toList else ds
  let body := List.replicate (l.precision.getD 0 - ds.length) '0' ++ ds
  let mark := if l.marked && takesIntegersOnly letter then ['0', letter] else []
  return l.pad true (l.sign (i < 0)) mark body

/-- The number that a value is. -/
def realOf (letter : Char) (v : Value) : Except TemplateError Binary64 :=
  let ofInt := fun (i : Int) =>
    match Binary64.ofRatio (i < 0) i.natAbs 1 with
    | .infinite _ => .error .tooLarge
    | x => .ok x
  match v.bare with
  | .float x => .ok x
  | .int i => ofInt i
  | .bool b => ofInt (if b then 1 else 0)
  | _ => .error (.kind letter v.kindName)

/-- A value as a real, with six digits behind the point unless there is a precision. -/
def Layout.real (l : Layout) (letter : Char) (style : Binary64.RealStyle) (v : Value) :
    Except TemplateError (List Char) := do
  let x ← realOf letter v
  let (negative, body) := x.realText style (l.precision.getD 6) l.marked
  let body := if letter.isUpper then (Text.upper (String.ofList body)).toList else body
  return l.pad true (l.sign negative) [] body

/-- The character that a value is or is the code of. -/
def characterOf (v : Value) : Except TemplateError Char :=
  let ofCode := fun (i : Int) =>
    if 0 ≤ i && i < 0x110000 then .ok (Char.ofNat i.toNat) else .error .code
  match v.bare with
  | .text s =>
    match s.toList with
    | [c] => .ok c
    | _ => .error .character
  | .int i => ofCode i
  | .bool b => ofCode (if b then 1 else 0)
  | _ => .error .character

/-- A value as a letter wants it; `index` is where the letter stands. -/
def Layout.write (l : Layout) (letter : Char) (index : Nat) (v : Value) :
    Except TemplateError (List Char) :=
  match letter with
  | 's' => .ok (l.textual v.shown.toList)
  | 'r' => .ok (l.textual v.inner.toList)
  | 'a' => .ok (l.textual (v.inner.toList.flatMap asciiChar))
  | 'd' | 'i' | 'u' | 'o' | 'x' | 'X' => l.integral letter v
  | 'f' | 'F' => l.real letter .positional v
  | 'e' | 'E' => l.real letter .scientific v
  | 'g' | 'G' => l.real letter .general v
  | 'c' => (characterOf v).map fun c => l.pad false [] [] [c]
  | _ => .error (.letter letter index)

/-! ## Filling -/

/-- The values for a place: the one that its name tells, or else those that are left; and what follows
the name. -/
def choose (mapping : Option Value) (values : List Value) (cs : List Char) :
    Except TemplateError (List Value × List Char) :=
  match cs with
  | '(' :: r =>
    match mapping with
    | none => .error .noMapping
    | some m =>
      match name 0 r with
      | none => .error .incompleteName
      | some (key, rest) =>
        match m.get? (String.ofList key) with
        | some v => .ok ([v], rest)
        | none => .error (.noName (String.ofList key))
  | _ => .ok (values, cs)

/-- The text of a place after its percent sign, what is left of the template and of the values; `size`
is the length of the whole template. -/
def place (size : Nat) (mapping : Option Value) (values : List Value) (cs : List Char) :
    Except TemplateError (List Char × List Char × List Value) := do
  let (values, cs) ← choose mapping values cs
  let (layout, cs) := flags default cs
  let x ← readPrecision (← readWidth ⟨layout, cs, values⟩)
  match dropSize x.text with
  | [] => throw .incomplete
  | letter :: rest =>
    match x.values with
    | [] => throw .tooFew
    | v :: values => do
      let cs ← x.layout.write letter (size - rest.length - 1) v
      return (cs, rest, values)

/-- What is left of a template, filled. -/
def fillFrom (size : Nat) (mapping : Option Value) :
    Nat → List Value → List Char → Except TemplateError (List Char)
  | _, values, [] => if values.isEmpty || mapping.isSome then .ok [] else .error .tooMany
  | 0, _, _ => .error .incomplete
  | fuel + 1, values, '%' :: '%' :: r => (fillFrom size mapping fuel values r).map ('%' :: ·)
  | fuel + 1, values, '%' :: r => do
    let (cs, rest, values) ← place size mapping values r
    let filled ← fillFrom size mapping fuel values rest
    return cs ++ filled
  | fuel + 1, values, c :: r => (fillFrom size mapping fuel values r).map (c :: ·)

/-- A template with values in its places; without values it is a text as it stands. -/
def fill (template : String) (values : List Value) : Except TemplateError String :=
  let mapping := match values with
    | [v] => if (v.entries?.getD []).isEmpty then none else some v
    | _ => none
  if values.isEmpty then .ok template
  else (fillFrom template.length mapping template.length values template.toList).map String.ofList

end Template

end GraphPaths
