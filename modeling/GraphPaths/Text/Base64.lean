/-!
# Base 64

Three bytes make four letters, each of six bits; what is left at the end is filled up with equals
signs. `encodeLines` writes lines of 76 letters, each ended by a line feed. `decode` leaves out every
character that is no letter and stops at the first full padding.
-/

namespace GraphPaths.Text.Base64

/-- The letters, by value. -/
def letters : List Char :=
  "ABCDEFGHIJKLMNOPQRSTUVWXYZabcdefghijklmnopqrstuvwxyz0123456789+/".toList

/-- The letter of a value below 64. -/
def letter (n : Nat) : Char := letters.getD n '='

/-- The letters of a run of bytes, filled up to a multiple of four. -/
def encode : List Nat → List Char
  | [] => []
  | [a] => [letter (a / 4), letter (a % 4 * 16), '=', '=']
  | [a, b] => [letter (a / 4), letter (a % 4 * 16 + b / 16), letter (b % 16 * 4), '=']
  | a :: b :: c :: r =>
    letter (a / 4) :: letter (a % 4 * 16 + b / 16) :: letter (b % 16 * 4 + c / 64)
      :: letter (c % 64) :: encode r

/-- A run of bytes in lines of 57 bytes, that is of 76 letters. -/
def encodeChunks : Nat → List Nat → List Char
  | 0, _ => []
  | fuel + 1, bs =>
    if bs.isEmpty then [] else encode (bs.take 57) ++ '\n' :: encodeChunks fuel (bs.drop 57)

/-- The lines of a run of bytes. -/
def encodeLines (bs : List Nat) : String := String.ofList (encodeChunks bs.length bs)

/-- The bytes of a text after `place` letters of a group of four, with the bits left over from the
last letter and the number of equals signs just read. -/
def decodeFrom : Nat → Nat → Nat → List Char → Option (List Nat)
  | place, _, _, [] => if place == 0 then some [] else none
  | place, bits, pads, c :: r =>
    if c == '=' then
      if 2 ≤ place then
        if 4 ≤ place + (pads + 1) then some [] else decodeFrom place bits (pads + 1) r
      else decodeFrom place bits pads r
    else match letters.findIdx? (· == c) with
      | none => decodeFrom place bits pads r
      | some v =>
        match place with
        | 0 => decodeFrom 1 v 0 r
        | 1 => (decodeFrom 2 (v % 16) 0 r).map ((bits * 4 + v / 16) :: ·)
        | 2 => (decodeFrom 3 (v % 4) 0 r).map ((bits * 16 + v / 4) :: ·)
        | _ => (decodeFrom 0 0 0 r).map ((bits * 64 + v) :: ·)

/-- The bytes of a text, if its last group is complete. -/
def decode (cs : List Char) : Option (List Nat) := decodeFrom 0 0 0 cs

end GraphPaths.Text.Base64
