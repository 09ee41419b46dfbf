import GraphPaths.Number.Binary64
import GraphPaths.Text.Digit

/-!
# The shortest text of a number

Among the decimals that read back as a number the text shows one with the fewest digits, the one
nearest to it. `shortest` finds it on the grids of one, two, … seventeen digits: on each grid only
the two neighbours of the number can read back (`Interval.holds`). `Layout` says how digits and
exponent are written, and `plainLayout` is the layout of this library's texts.
-/

namespace GraphPaths

namespace Binary64

/-! ## The digits -/

/-- The reals that round to a number, as multiples of `2 ^ (e - 2)`: from `low` to `high`, the ends
included for an even mantissa. -/
structure Interval where
  low : Nat
  high : Nat
  closed : Bool
  unit : Int

/-- The interval of a positive number. -/
def interval (m : Nat) (e : Int) : Interval where
  low := if m == Nat.pow 2 52 && -1074 < e then 4 * m - 1 else 4 * m - 2
  high := 4 * m + 2
  closed := m % 2 == 0
  unit := e - 2

/-- Whether `num / den` lies in an interval. -/
def Interval.holds (i : Interval) (num den : Nat) : Bool :=
  let (a, b) := ratio i.low i.unit
  let (c, d) := ratio i.high i.unit
  if i.closed then decide (a * den ≤ num * b) && decide (num * d ≤ c * den)
  else decide (a * den < num * b) && decide (num * d < c * den)

/-- The quotient `digits * 10 ^ p`. -/
def tenfold (digits : Nat) (p : Int) : Nat × Nat :=
  if p < 0 then (digits, Nat.pow 10 p.natAbs) else (digits * Nat.pow 10 p.natAbs, 1)

/-- The order of magnitude of `num / den`: the `k` with `10 ^ (k - 1) ≤ num / den < 10 ^ k`. -/
def order (num den : Nat) : Int :=
  let guess := ((Nat.toDigits 10 num).length : Int) - ((Nat.toDigits 10 den).length : Int)
  let (a, b) := tenfold 1 guess
  if a * den ≤ num * b then guess + 1 else guess

/-- The neighbour of `num / den` on the grid of step `10 ^ p` that lies in an interval; of two, the
nearer, and of two as near the even one. -/
def onGrid (i : Interval) (num den : Nat) (p : Int) : Option Nat :=
  let (n, d) := if p < 0 then (num * Nat.pow 10 p.natAbs, den) else (num, den * Nat.pow 10 p.natAbs)
  let below := n / d
  let holds := fun k => let (a, b) := tenfold k p; i.holds a b
  let twice := 2 * (n % d)
  match holds below, holds (below + 1) with
  | true, true => some (if twice < d || (twice == d && below % 2 == 0) then below else below + 1)
  | true, false => some below
  | false, true => some (below + 1)
  | false, false => none

/-- The digits on the first of the grids with `width`, `width + 1`, … digits that has any, and the
exponent of the last digit. -/
def firstGrid (i : Interval) (num den : Nat) (k : Int) : Nat → Nat → Nat × Int
  | 0, width => (num * Nat.pow 10 width / den, k - width)
  | fuel + 1, width =>
    match onGrid i num den (k - width) with
    | some digits => (digits, k - width)
    | none => firstGrid i num den k fuel (width + 1)

/-- The shortest decimal `digits * 10 ^ exponent` of a positive number. -/
def shortest (m : Nat) (e : Int) : Nat × Int :=
  let (num, den) := ratio m e
  firstGrid (interval m e) num den (order num den) 20 1

/-! ## The layout -/

/-- How the digits of a number are written. -/
structure Layout where
  /-- Numbers below ten to this power are written with an exponent. -/
  leastOrder : Int
  /-- Numbers from ten to this power on are written with an exponent. -/
  greatestOrder : Int
  /-- Whether a whole number keeps a fraction of one nought. -/
  pointZero : Bool
  /-- The digits an exponent has at least. -/
  exponentWidth : Nat

/-- Positional from 0.0001 to below 10 ^ 16, a whole number with `.0`, exponents with a sign and
two digits at least. -/
def plainLayout : Layout := ⟨-4, 16, true, 2⟩

/-- A positive decimal in a layout. -/
def Layout.write (l : Layout) (digits : Nat) (exponent : Int) : String :=
  let ds := Nat.toDigits 10 digits
  let point : Int := ds.length + exponent
  if point ≤ l.leastOrder || l.greatestOrder < point then
    let x := point - 1
    let fraction := match ds.drop 1 with
      | [] => []
      | rest => '.' :: rest
    String.ofList (ds.take 1 ++ fraction ++ ['e', if x < 0 then '-' else '+'])
      ++ Text.decimalPadded l.exponentWidth x.natAbs
  else if point ≤ 0 then
    String.ofList ('0' :: '.' :: List.replicate point.natAbs '0' ++ ds)
  else if exponent < 0 then
    String.ofList (ds.take point.natAbs ++ '.' :: ds.drop point.natAbs)
  else
    String.ofList (ds ++ List.replicate exponent.natAbs '0' ++ (if l.pointZero then ['.', '0'] else []))

/-- The decimal without the noughts at its end. -/
def trimmed : Nat → Nat → Int → Nat × Int
  | 0, digits, e => (digits, e)
  | fuel + 1, digits, e =>
    if digits % 10 == 0 && digits != 0 then trimmed fuel (digits / 10) (e + 1) else (digits, e)

/-- The text of a number. -/
def text : Binary64 → String
  | .finite s m e =>
    let sign := if s then "-" else ""
    if m == 0 then sign ++ "0.0"
    else
      let (digits, exponent) := shortest m e
      let (digits, exponent) := trimmed 20 digits exponent
      sign ++ plainLayout.write digits exponent
  | .infinite s => if s then "-inf" else "inf"
  | .nan => "nan"

end Binary64

end GraphPaths
