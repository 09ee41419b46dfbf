import GraphPaths.Number.Binary64
import GraphPaths.Text.Blank
import GraphPaths.Text.Digit
import GraphPaths.Text.Quoted

/-!
# Numerals

An integer numeral has white space around it, a sign, for the bases two, eight and sixteen a mark,
and digits between which single low lines may stand; base ten also takes the decimal digits of any
script. No decimal numeral, read or written, has more than 4300 digits. A numeral of a real has a fraction or an exponent as well,
or is a word for infinity or `nan`.
-/

namespace GraphPaths

/-- The number of decimal digits an integer may have in a text. -/
def digitLimit : Nat := 4300

/-- Why a text is no numeral, or an integer has none. -/
inductive NumeralError where
  /-- The text has not the form of an integer of the base. -/
  | notInteger (base : Nat) (text : String)
  /-- The integer has more digits than the limit allows. -/
  | tooManyDigits (count : Nat)
  /-- The integer would be written with more digits than the limit allows. -/
  | tooLong
  /-- The text has not the form of a real. -/
  | notReal (text : String)
deriving Repr, DecidableEq

/-- The message of an error. -/
def NumeralError.message : NumeralError → String
  | .notInteger base text =>
    let shown := String.ofList ((Text.quoted text).toList.take 200)
    s!"invalid literal for int() with base {Text.decimal base}: {shown}"
  | .tooManyDigits n =>
    s!"Exceeds the limit (4300 digits) for integer string conversion: value has {Text.decimal n} digits; use sys.set_int_max_str_digits() to increase the limit"
  | .tooLong =>
    "Exceeds the limit (4300 digits) for integer string conversion; use sys.set_int_max_str_digits() to increase the limit"
  | .notReal text => s!"could not convert string to float: {Text.quoted text}"

namespace Numeral

/-! ## Digits -/

/-- The characters of a numeral in ASCII: in a text with characters beyond ASCII, white space among
them counts as a space and a decimal digit as its value. A character that is neither stands for
itself and ends the numeral. -/
def toAscii (cs : List Char) : List Char :=
  cs.map fun c =>
    if c.toNat < 127 then c
    else if Text.isBlank c then ' '
    else match Text.digitValue c with
      | some d => Text.hexChar false d
      | none => c

/-- The text without the blanks at its ends. -/
def trim (cs : List Char) : List Char := Text.stripBy Text.isAsciiBlank cs

/-- The sign of a numeral and what follows it. -/
def sign : List Char → Bool × List Char
  | '-' :: r => (true, r)
  | '+' :: r => (false, r)
  | r => (false, r)

/-- The values of digits of a base between which single low lines may stand. The flag tells whether
a digit stands right before. -/
def digits (base : Nat) : Bool → List Char → Option (List Nat)
  | after, [] => if after then some [] else none
  | after, c :: r =>
    if c == '_' then if after then digits base false r else none
    else match Text.hexDigit c with
      | some d => if d < base then (digits base true r).map (d :: ·) else none
      | none => none

/-- The number with these digits. -/
def ofDigits (base : Nat) (ds : List Nat) : Nat := ds.foldl (fun n d => n * base + d) 0

/-- What follows the mark of a base, after which a low line may stand. -/
def dropMark (base : Nat) (cs : List Char) : List Char :=
  let marks := if base == 16 then ['x', 'X'] else if base == 8 then ['o', 'O']
    else if base == 2 then ['b', 'B'] else []
  match cs with
  | '0' :: m :: '_' :: r => if marks.contains m then r else cs
  | '0' :: m :: r => if marks.contains m then r else cs
  | _ => cs

/-! ## Integers -/

/-- The integer that a text is a numeral of. -/
def int (base : Nat) (text : String) : Except NumeralError Int :=
  let (negative, r) := sign (trim (toAscii text.toList))
  match digits base false (dropMark base r) with
  | none => .error (.notInteger base text)
  | some ds =>
    if base == 10 && digitLimit < ds.length then .error (.tooManyDigits ds.length)
    else
      let n : Int := ofDigits base ds
      .ok (if negative then -n else n)

/-- The decimal numeral of an integer. -/
def ofInt (i : Int) : Except NumeralError String :=
  let ds := Nat.toDigits 10 i.natAbs
  if digitLimit < ds.length then .error .tooLong
  else .ok (String.ofList (if i < 0 then '-' :: ds else ds))

/-! ## Reals -/

/-- Decimal digits with single low lines between them at the start of a text, and the rest. The flag
tells whether a digit stands right before. -/
def digitsFrom : Bool → List Char → List Nat × List Char
  | _, [] => ([], [])
  | after, c :: r =>
    match Text.asciiDigit c with
    | some d => let (ds, rest) := digitsFrom true r; (d :: ds, rest)
    | none =>
      if c == '_' && after && (r.head?.bind Text.asciiDigit).isSome then digitsFrom false r
      else ([], c :: r)

/-- The digits at the start of a text, and the rest. -/
def leadingDigits (cs : List Char) : List Nat × List Char := digitsFrom false cs

/-- The exponent at the end of a numeral. -/
def exponent : List Char → Option Int
  | [] => some 0
  | c :: r =>
    if c == 'e' || c == 'E' then
      let (negative, r) := sign r
      match leadingDigits r with
      | ([], _) | (_, _ :: _) => none
      | (ds, []) =>
        let n : Int := ofDigits 10 ds
        some (if negative then -n else n)
    else none

/-- The number of a numeral without sign: digits, a fraction, an exponent. -/
def unsignedReal (negative : Bool) (cs : List Char) : Option Binary64 :=
  let (whole, r) := leadingDigits cs
  let (fraction, r) := match r with
    | '.' :: r' => leadingDigits r'
    | r => ([], r)
  if whole.isEmpty && fraction.isEmpty then none
  else (exponent r).map fun e =>
    .ofDecimal negative (ofDigits 10 (whole ++ fraction)) (e - fraction.length)

/-- The number that a text is a numeral of. -/
def real (text : String) : Except NumeralError Binary64 :=
  let (negative, r) := sign (trim (toAscii text.toList))
  let word := String.ofList (r.map fun c => if 'A' ≤ c ∧ c ≤ 'Z' then Char.ofNat (c.toNat + 32) else c)
  if word == "inf" || word == "infinity" then .ok (.infinite negative)
  else if word == "nan" then .ok .nan
  else match unsignedReal negative r with
    | some x => .ok x
    | none => .error (.notReal text)

end Numeral

end GraphPaths
