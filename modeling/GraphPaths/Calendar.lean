import GraphPaths.Text.Digit

/-!
# Dates and times

A day of the Gregorian calendar, and a moment of a day with an optional offset from universal time.
`Date.ofParts` and `DateTime.ofParts` refuse parts that are out of range, naming the first such
part, and `iso` writes both in the notation of ISO 8601.
-/

namespace GraphPaths

/-- Why parts make no date, time or offset. -/
inductive CalendarError where
  | year (year : Nat)
  | month
  | day
  | hour
  | minute
  | second
  /-- An offset of a day or more, in seconds. -/
  | offset (seconds : Int)
deriving Repr, DecidableEq

/-- A span of time as whole days, possibly negative, and seconds of a day. -/
def spanText (seconds : Int) : String :=
  let days := seconds.fdiv 86400
  let rest := (seconds.fmod 86400).toNat
  let sign := if days < 0 then "-" else ""
  let shown := "days=" ++ sign ++ Text.decimal days.natAbs
  "datetime.timedelta(" ++ shown ++ (if rest == 0 then "" else ", seconds=" ++ Text.decimal rest)
    ++ ")"

/-- The message of an error. -/
def CalendarError.message : CalendarError → String
  | .year y => s!"year {Text.decimal y} is out of range"
  | .month => "month must be in 1..12"
  | .day => "day is out of range for month"
  | .hour => "hour must be in 0..23"
  | .minute => "minute must be in 0..59"
  | .second => "second must be in 0..59"
  | .offset s =>
    s!"offset must be a timedelta strictly between -timedelta(hours=24) and timedelta(hours=24), not {spanText s}."

/-! ## Days -/

/-- A day of the years 1 to 9999. -/
structure Date where
  year : Nat
  month : Nat
  day : Nat
deriving Repr, DecidableEq, Inhabited

/-- Whether a year has a leap day. -/
def isLeap (year : Nat) : Bool := year % 4 == 0 && (year % 100 != 0 || year % 400 == 0)

/-- The number of days of a month. -/
def daysIn (year month : Nat) : Nat :=
  if month == 2 then (if isLeap year then 29 else 28)
  else if [4, 6, 9, 11].contains month then 30
  else 31

/-- The day with these parts, if there is one. -/
def Date.ofParts (year month day : Nat) : Except CalendarError Date :=
  if year < 1 || 9999 < year then .error (.year year)
  else if month < 1 || 12 < month then .error .month
  else if day < 1 || daysIn year month < day then .error .day
  else .ok ⟨year, month, day⟩

/-- The day in ISO notation. -/
def Date.iso (d : Date) : String :=
  Text.decimalPadded 4 d.year ++ "-" ++ Text.decimalPadded 2 d.month ++ "-"
    ++ Text.decimalPadded 2 d.day

/-- The number of days before a day. -/
def Date.ordinal (d : Date) : Nat :=
  let before := d.year - 1
  365 * before + before / 4 - before / 100 + before / 400
    + (List.range (d.month - 1)).foldl (fun n m => n + daysIn d.year (m + 1)) 0 + d.day

/-! ## Moments -/

/-- A moment of a day, with its offset from universal time in seconds if it has one. -/
structure DateTime where
  date : Date
  hour : Nat
  minute : Nat
  second : Nat
  microsecond : Nat
  offset : Option Int
deriving Repr, DecidableEq, Inhabited

/-- An offset that is less than a day. -/
def checkOffset (seconds : Int) : Except CalendarError Int :=
  if seconds.natAbs < 86400 then .ok seconds else .error (.offset seconds)

/-- The moment with these parts, if there is one. -/
def DateTime.ofParts (year month day hour minute second microsecond : Nat) (offset : Option Int) :
    Except CalendarError DateTime := do
  let date ← Date.ofParts year month day
  if 23 < hour then .error .hour
  else if 59 < minute then .error .minute
  else if 59 < second then .error .second
  else .ok ⟨date, hour, minute, second, microsecond, offset⟩

/-- An offset in ISO notation, in whole minutes. -/
def isoOffset (seconds : Int) : String :=
  let minutes := seconds.natAbs / 60
  (if seconds < 0 then "-" else "+") ++ Text.decimalPadded 2 (minutes / 60) ++ ":"
    ++ Text.decimalPadded 2 (minutes % 60)

/-- The moment in ISO notation with a separator between day and time. -/
def DateTime.iso (sep : String) (t : DateTime) : String :=
  t.date.iso ++ sep ++ Text.decimalPadded 2 t.hour ++ ":" ++ Text.decimalPadded 2 t.minute ++ ":"
    ++ Text.decimalPadded 2 t.second
    ++ (if t.microsecond == 0 then "" else "." ++ Text.decimalPadded 6 t.microsecond)
    ++ (match t.offset with
      | none => ""
      | some s => isoOffset s)

/-- The microseconds from the start of the calendar to a moment, read as universal time. -/
def DateTime.instant (t : DateTime) : Int :=
  let seconds : Int := t.date.ordinal * 86400 + t.hour * 3600 + t.minute * 60 + t.second
  (seconds - t.offset.getD 0) * 1000000 + t.microsecond

/-- Whether two moments are the same; one with an offset and one without never are. -/
def DateTime.same (a b : DateTime) : Bool :=
  a.offset.isSome == b.offset.isSome && a.instant == b.instant

end GraphPaths
