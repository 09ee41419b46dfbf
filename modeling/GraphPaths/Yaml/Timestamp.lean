import GraphPaths.Calendar

/-!
# Timestamps

A timestamp is a day, `2001-12-14`, with or without a time, `2001-12-14t21:59:43.10-05:00`. `scan`
reads the notation into its parts, `Timestamp.resolve` makes them a date or a moment, and
`isImplicit` says which texts are timestamps without being marked as such: a day alone has two
digits for month and day.
-/

namespace GraphPaths

namespace Yaml

/-- The time of day of a timestamp, as written. -/
structure ClockTime where
  hour : Nat
  minute : Nat
  second : Nat
  /-- The digits of the fraction of a second. -/
  fraction : List Nat
  /-- The offset from universal time in seconds. -/
  offset : Option Int
deriving Repr, DecidableEq

/-- A timestamp as written. -/
structure Timestamp where
  year : Nat
  month : Nat
  day : Nat
  time : Option ClockTime
deriving Repr, DecidableEq

namespace Timestamp

/-- The value of digits. -/
def number (ds : List Nat) : Nat := ds.foldl (fun n d => 10 * n + d) 0

/-- The digits at the start of a text, `most` at the most, and the rest. -/
def digits : Nat → List Char → List Nat × List Char
  | 0, cs => ([], cs)
  | _, [] => ([], [])
  | most + 1, c :: r =>
    match Text.asciiDigit c with
    | some d => let (ds, rest) := digits most r; (d :: ds, rest)
    | none => ([], c :: r)

/-- A number of at least `least` and at most `most` digits, and the rest. -/
def field (least most : Nat) (cs : List Char) : Option (Nat × List Char) :=
  let (ds, rest) := digits most cs
  if ds.length < least then none else some (number ds, rest)

/-- The rest after a character. -/
def expect (c : Char) (cs : List Char) : Option (List Char) :=
  match cs with
  | d :: r => if d == c then some r else none
  | [] => none

/-- Whether a character is a blank within a line. -/
def isSpace (c : Char) : Bool := c == ' ' || c == '\t'

/-- The rest after what parts day and time: a letter T or blanks. -/
def separator (cs : List Char) : Option (List Char) :=
  match cs with
  | 'T' :: r | 't' :: r => some r
  | c :: r => if isSpace c then some (r.dropWhile isSpace) else none
  | [] => none

/-- The offset that ends a timestamp, if there is one. -/
def zone (cs : List Char) : Option (Option Int) :=
  match cs with
  | [] => some none
  | _ =>
    match cs.dropWhile isSpace with
    | ['Z'] => some (some 0)
    | sign :: r =>
      if sign == '+' || sign == '-' then do
        let (hours, r) ← field 1 2 r
        let minutes ← match r with
          | [] => some 0
          | ':' :: r' => (field 2 2 r').bind fun (m, rest) => if rest.isEmpty then some m else none
          | _ => none
        let seconds : Int := hours * 3600 + minutes * 60
        return some (if sign == '-' then -seconds else seconds)
      else none
    | [] => none

/-- The time of day that ends a timestamp. -/
def clock (cs : List Char) : Option ClockTime := do
  let (hour, r) ← field 1 2 cs
  let r ← expect ':' r
  let (minute, r) ← field 2 2 r
  let r ← expect ':' r
  let (second, r) ← field 2 2 r
  let (fraction, r) := match r with
    | '.' :: r' => digits r'.length r'
    | _ => ([], r)
  let offset ← zone r
  return ⟨hour, minute, second, fraction, offset⟩

/-- The timestamp that a text is, with the number of digits of month and day. -/
def scan (cs : List Char) : Option (Timestamp × Nat × Nat) := do
  let (year, r) ← field 4 4 cs
  let r ← expect '-' r
  let (month, r') ← field 1 2 r
  let monthWidth := r.length - r'.length
  let r ← expect '-' r'
  let (day, r') ← field 1 2 r
  let dayWidth := r.length - r'.length
  let time ← match r' with
    | [] => some none
    | _ => (separator r').bind fun r => (clock r).map some
  return (⟨year, month, day, time⟩, monthWidth, dayWidth)

/-- Whether a text is a timestamp without being marked as one. -/
def isImplicit (cs : List Char) : Bool :=
  match scan cs with
  | some (t, monthWidth, dayWidth) => t.time.isSome || (monthWidth == 2 && dayWidth == 2)
  | none => false

/-- The millionths of a second that the first six digits of a fraction make. -/
def microseconds (fraction : List Nat) : Nat :=
  number ((fraction ++ List.replicate 6 0).take 6)

/-- The day or the moment of a timestamp. -/
def resolve (t : Timestamp) : Except CalendarError (Date ⊕ DateTime) :=
  match t.time with
  | none => (Date.ofParts t.year t.month t.day).map .inl
  | some c => do
    let offset ← match c.offset with
      | none => .ok none
      | some s => (checkOffset s).map some
    let moment ← DateTime.ofParts t.year t.month t.day c.hour c.minute c.second
      (microseconds c.fraction) offset
    return .inr moment

end Timestamp

end Yaml

end GraphPaths
