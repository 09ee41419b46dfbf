import GraphPaths.Number.Shortest

/-!
# Numbers with a given count of digits

A positional text has a given number of places behind the point, a scientific one a given number of
digits behind the first and an exponent. Both round the exact number once, a half to the even digit. A
general text counts all digits: it is scientific for very small and very large numbers and positional
between, in both cases without the noughts at its end. `realText` writes a number in one of these
styles.
-/

namespace GraphPaths

namespace Binary64

/-- How a number is written. -/
inductive RealStyle where
  | positional
  | scientific
  | general
deriving Repr, DecidableEq, Inhabited

/-! ## Rounding -/

/-- `num / den` in units of the last of `places` places behind the point. -/
def roundedTo (places num den : Nat) : Nat := roundDiv (num * Nat.pow 10 places) den

/-- `num / den` rounded to `count` digits, as one number, and the exponent of the first digit. -/
def significant (count num den : Nat) : Nat × Int :=
  if num == 0 then (0, 0)
  else
    let k := order num den
    let (a, b) := tenfold 1 (k - count)
    let digits := roundDiv (num * b) (den * a)
    if digits < Nat.pow 10 count then (digits, k - 1) else (digits / 10, k)

/-! ## Texts -/

/-- Digits with a point in front of the last `places` of them; without such places there is a point
only if `point` asks for it. -/
def withPoint (point : Bool) (places digits : Nat) : List Char :=
  let ds := (Text.decimalPadded (places + 1) digits).toList
  let whole := ds.take (ds.length - places)
  if places == 0 && !point then whole else whole ++ '.' :: ds.drop (ds.length - places)

/-- Digits without the noughts behind the point, and without the point when none is left. -/
def withoutNoughts (cs : List Char) : List Char :=
  if cs.contains '.' then
    match cs.reverse.dropWhile (· == '0') with
    | '.' :: r => r.reverse
    | r => r.reverse
  else cs

/-- An exponent: its sign, and two digits at least. -/
def exponentText (x : Int) : List Char :=
  'e' :: (if x < 0 then '-' else '+') :: (Text.decimalPadded 2 x.natAbs).toList

/-- The text of `num / den` in a style; `point` keeps the point, and the noughts behind it, where a
text would be without. -/
def quotientText (style : RealStyle) (precision : Nat) (point : Bool) (num den : Nat) : List Char :=
  match style with
  | .positional => withPoint point precision (roundedTo precision num den)
  | .scientific =>
    let (digits, x) := significant (precision + 1) num den
    withPoint point precision digits ++ exponentText x
  | .general =>
    let count := max precision 1
    let (digits, x) := significant count num den
    let short := fun cs => if point then cs else withoutNoughts cs
    if x < -4 || (count : Int) ≤ x then short (withPoint point (count - 1) digits) ++ exponentText x
    else short (withPoint point (count - 1 - x).toNat digits)

/-- Whether a number has a minus sign, and the text of its magnitude. -/
def realText (style : RealStyle) (precision : Nat) (point : Bool) : Binary64 → Bool × List Char
  | .finite s m e =>
    let (num, den) := ratio m e
    (s, quotientText style precision point num den)
  | .infinite s => (s, "inf".toList)
  | .nan => (false, "nan".toList)

end Binary64

end GraphPaths
