import GraphPaths.Text.Digit

/-!
# UTF-8

`decode` reads bytes as characters and refuses what is no shortest form of a character's code: it
names the bytes in question, from the first that starts no character up to the last that could still
belong to one.
-/

namespace GraphPaths.Text.Utf8

/-- What is wrong with bytes. -/
inductive Fault where
  | start
  | continuation
  | endOfData
deriving Repr, DecidableEq

/-- Bytes that are no text: a fault, the place of its first byte, and how many bytes it concerns. -/
structure DecodeError where
  fault : Fault
  byte : Nat
  position : Nat
  count : Nat
deriving Repr, DecidableEq

/-- The words for a fault. -/
def Fault.text : Fault → String
  | .start => "invalid start byte"
  | .continuation => "invalid continuation byte"
  | .endOfData => "unexpected end of data"

/-- The message of an error. -/
def DecodeError.message (e : DecodeError) : String :=
  let place :=
    if e.count ≤ 1 then
      "byte 0x" ++ String.ofList (hexPadded false 2 e.byte) ++ " in position " ++ decimal e.position
    else
      "bytes in position " ++ decimal e.position ++ "-" ++ decimal (e.position + e.count - 1)
  "'utf-8' codec can't decode " ++ place ++ ": " ++ e.fault.text

/-- Whether a byte carries six bits of a character. -/
def isContinuation (b : Nat) : Bool := 0x80 ≤ b && b < 0xC0

/-- The bytes that may follow the first byte of a character of three or four bytes. -/
def secondRange (b : Nat) : Nat × Nat :=
  if b == 0xE0 then (0xA0, 0xBF)
  else if b == 0xED then (0x80, 0x9F)
  else if b == 0xF0 then (0x90, 0xBF)
  else if b == 0xF4 then (0x80, 0x8F)
  else (0x80, 0xBF)

/-- The number of bytes of a character that starts with a byte; nought if none does. -/
def lengthOf (b : Nat) : Nat :=
  if b < 0x80 then 1
  else if 0xC2 ≤ b && b < 0xE0 then 2
  else if 0xE0 ≤ b && b < 0xF0 then 3
  else if 0xF0 ≤ b && b < 0xF5 then 4
  else 0

/-- Whether a byte may be the next of a character that starts with `first`, after `before` bytes. -/
def fits (first before b : Nat) : Bool :=
  if before == 1 then
    let (low, high) := secondRange first
    low ≤ b && b ≤ high
  else isContinuation b

/-- The number of bytes, the first included, that belong to a character. -/
def belonging (first : Nat) : Nat → Nat → List Nat → Nat
  | 0, before, _ => before
  | _, before, [] => before
  | more + 1, before, b :: bs =>
    if fits first before b then belonging first more (before + 1) bs else before

/-- The code of a character's bytes. -/
def code (bytes : List Nat) : Nat :=
  match bytes with
  | [a] => a
  | [a, b] => (a % 32) * 64 + b % 64
  | [a, b, c] => ((a % 16) * 64 + b % 64) * 64 + c % 64
  | [a, b, c, d] => (((a % 8) * 64 + b % 64) * 64 + c % 64) * 64 + d % 64
  | _ => 0

/-- The characters of bytes from a position on, after those in `acc`, the last first. -/
def decodeFrom : Nat → Nat → List Char → List Nat → Except DecodeError (List Char)
  | 0, _, acc, _ => .ok acc.reverse
  | _, _, acc, [] => .ok acc.reverse
  | fuel + 1, position, acc, b :: bs =>
    let length := lengthOf b
    if length == 0 then .error ⟨.start, b, position, 1⟩
    else
      let have_ := belonging b (length - 1) 1 bs
      if have_ == length then
        decodeFrom fuel (position + length)
          (Char.ofNat (code (b :: bs.take (length - 1))) :: acc) (bs.drop (length - 1))
      else if bs.length + 1 == have_ then .error ⟨.endOfData, b, position, have_⟩
      else .error ⟨.continuation, b, position, have_⟩

/-- The text of bytes. -/
def decode (bytes : List Nat) : Except DecodeError String :=
  (decodeFrom bytes.length 0 [] bytes).map String.ofList

end GraphPaths.Text.Utf8
