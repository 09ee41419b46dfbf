import GraphPaths.Calendar
import GraphPaths.Number.Numeral

/-!
# Why a YAML text gives no value

Most faults are faults of the notation. The others are scalars that have the form of a value without
being one, such as a day that no month has.
-/

namespace GraphPaths

namespace Yaml

/-- Why a text gives no value. -/
inductive LoadError where
  /-- The text breaks the rules of the notation. -/
  | malformed
  /-- An escape names a code beyond all characters. -/
  | codePoint (code : Nat)
  /-- A scalar marked as a number is empty. -/
  | emptyNumber
  /-- A scalar marked as a number is none. -/
  | number (error : NumeralError)
  /-- A number has a part that stands for too many seconds. -/
  | tooLarge
  /-- A scalar marked as a truth value is none. -/
  | noBool (text : String)
  /-- A scalar marked as a timestamp is none. -/
  | noTimestamp
  /-- A mapping is marked as a timestamp. -/
  | notScalar
  /-- A timestamp names no moment. -/
  | calendar (error : CalendarError)
deriving Repr, DecidableEq

/-- The message of an error, empty where the rules of the notation are broken. -/
def LoadError.message : LoadError → String
  | .malformed | .noTimestamp => ""
  | .codePoint code =>
    if code < Nat.pow 2 31 then "chr() arg not in range(0x110000)"
    else "Python int too large to convert to C int"
  | .emptyNumber => "string index out of range"
  | .number e => e.message
  | .tooLarge => "int too large to convert to float"
  | .noBool text => Text.quoted text
  | .notScalar => "expected string or bytes-like object, got 'list'"
  | .calendar e => e.message

end Yaml

end GraphPaths
