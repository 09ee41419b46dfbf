import GraphPaths.Text.Digit
import GraphPaths.Yaml.Timestamp

/-!
# What a plain scalar is

A scalar without quotes and without a tag is a truth value, a number, null, a timestamp or one of
the marks `<<` and `=` when it has that form, and else a text. `implicitKind` decides it; a writer
puts a text in quotes when its kind is not `text`, and a reader takes every plain scalar as a value
of its kind.
-/

namespace GraphPaths

namespace Yaml

/-- What a scalar is. -/
inductive ScalarKind where
  | text
  | null
  | bool
  | int
  | float
  | timestamp
  | binary
  /-- The key `<<`, which merges mappings. -/
  | merge
  /-- The scalar `=`. -/
  | default
  /-- A lone indicator `!`, `&` or `*`. -/
  | indicator
deriving Repr, DecidableEq, Inhabited

/-- The words for truth values. -/
def boolWords : List (String × Bool) :=
  [("yes", true), ("no", false), ("true", true), ("false", false), ("on", true), ("off", false)]

/-- The spellings of a word: in small letters, with a capital, in capitals. -/
def spellings (word : List Char) : List (List Char) :=
  let capital := fun c => if 'a' ≤ c ∧ c ≤ 'z' then Char.ofNat (c.toNat - 32) else c
  let rest := word.tail
  [word, (word.head?.map capital).toList ++ rest, word.map capital]

/-- Whether a text is a spelling of a word. -/
def spells (cs : List Char) (word : String) : Bool := (spellings word.toList).contains cs

/-- The text without a sign in front. -/
def unsigned (cs : List Char) : List Char :=
  match cs with
  | '+' :: r | '-' :: r => r
  | _ => cs

/-- Whether a text has at least one character and all are digits of a base or low lines. -/
def allDigits (base : Nat) (cs : List Char) : Bool :=
  !cs.isEmpty && cs.all fun c => c == '_' || ((Text.hexDigit c).map (decide <| · < base)).getD false

/-- Whether a text starts with a digit and goes on with digits and low lines. -/
def isCount (cs : List Char) : Bool :=
  match cs with
  | c :: r => (Text.asciiDigit c).isSome && (r.isEmpty || allDigits 10 r)
  | [] => false

/-- The parts of a text between colons. -/
def colonParts : List Char → List (List Char)
  | [] => [[]]
  | c :: r =>
    if c == ':' then [] :: colonParts r
    else match colonParts r with
      | p :: ps => (c :: p) :: ps
      | [] => [[c]]

/-- Whether a text is a number below sixty of one or two digits. -/
def isSixtieth (cs : List Char) : Bool :=
  match cs with
  | [a] => (Text.asciiDigit a).isSome
  | [a, b] => '0' ≤ a && a ≤ '5' && (Text.asciiDigit b).isSome
  | _ => false

/-- Whether a text is a count followed by numbers below sixty, with colons between. -/
def isSexagesimal (cs : List Char) : Bool :=
  match colonParts cs with
  | first :: second :: rest => isCount first && (second :: rest).all isSixtieth
  | _ => false

/-- Whether a text is an integer. -/
def isInt (cs : List Char) : Bool :=
  let r := unsigned cs
  match r with
  | ['0'] => true
  | '0' :: 'b' :: ds => allDigits 2 ds
  | '0' :: 'x' :: ds => allDigits 16 ds
  | '0' :: ds => allDigits 8 ds
  | _ => isCount r || isSexagesimal r

/-- Whether a text is an exponent of a float, or empty. -/
def isExponent (cs : List Char) : Bool :=
  match cs with
  | [] => true
  | e :: sign :: ds =>
    (e == 'e' || e == 'E') && (sign == '+' || sign == '-') && !ds.isEmpty &&
      ds.all fun c => (Text.asciiDigit c).isSome
  | _ => false

/-- Whether a character may stand in the digits of a float. -/
def isFloatDigit (c : Char) : Bool := c == '_' || (Text.asciiDigit c).isSome

/-- Whether a text is a float. -/
def isFloat (cs : List Char) : Bool :=
  let r := unsigned cs
  let (whole, rest) := r.span (· != '.')
  match rest with
  | [] => false
  | _ :: after =>
    let fraction := after.takeWhile isFloatDigit
    let tail := after.dropWhile isFloatDigit
    (isCount whole && isExponent tail)
      || (r.length == cs.length && whole.isEmpty && isCount fraction && isExponent tail)
      || (isSexagesimal whole && tail.isEmpty)
      || (whole.isEmpty && (["inf", "Inf", "INF"].map String.toList).contains after)
      || (["nan", "NaN", "NAN"].any fun w => cs == '.' :: w.toList)

/-- Whether a text stands for null. -/
def isNull (cs : List Char) : Bool := cs.isEmpty || cs == ['~'] || spells cs "null"

/-- The kind of a plain scalar without a tag. -/
def implicitKind (cs : List Char) : ScalarKind :=
  if isNull cs then .null
  else if boolWords.any fun (w, _) => spells cs w then .bool
  else if isFloat cs then .float
  else if isInt cs then .int
  else if cs == ['<', '<'] then .merge
  else if Timestamp.isImplicit cs then .timestamp
  else if cs == ['='] then .default
  else if cs == ['!'] || cs == ['&'] || cs == ['*'] then .indicator
  else .text

end Yaml

end GraphPaths
