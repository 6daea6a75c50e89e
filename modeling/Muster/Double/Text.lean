import Muster.Double.Arithmetic

/-!
The text of a double: the fewest decimal digits that read back to it, the nearest of these, and of
two equally near ones the larger. The text is always positional, and a whole number has no point.
-/

namespace Muster.Double

/-- Zeros in front of `text` up to `width` characters. -/
def padZeros (width : Nat) (text : String) : String :=
  "".pushn '0' (width - text.length) ++ text

/-- The positional text of `digits * 10 ^ exponent`. -/
def positional (digits : Nat) (exponent : Int) : String :=
  match exponent with
  | .ofNat e => toString (digits * Nat.pow 10 e)
  | .negSucc e =>
    let places := e + 1
    let whole := toString (digits / Nat.pow 10 places)
    let fraction := padZeros places (toString (digits % Nat.pow 10 places))
    let trimmed := (fraction.toList.reverse.dropWhile (· == '0')).reverse
    if trimmed.isEmpty then whole else whole ++ "." ++ String.ofList trimmed

/-- The numerator and denominator of `a * 10 ^ e`. -/
def scaleTen (a : Nat) (e : Int) : Nat × Nat :=
  match e with
  | .ofNat e => (a * Nat.pow 10 e, 1)
  | .negSucc e => (a, Nat.pow 10 (e + 1))

/-- Whether `10 ^ e` is at most `num / den`. -/
def powerOfTenLe (e : Int) (num den : Nat) : Bool :=
  let (p, q) := scaleTen 1 e
  decide (p * den ≤ num * q)

/-- The exponent of the power of ten just at or below `num / den`. The binary logarithm, scaled,
misses it by one at most. -/
def decimalExponent (num den : Nat) : Int :=
  let guess := ((num.log2 : Int) - (den.log2 : Int)) * 1233 / 4096
  if powerOfTenLe (guess + 1) num den then guess + 1
  else if powerOfTenLe guess num den then guess
  else guess - 1

/-- The numbers that read back to one finite positive double, as ratios over `2 * unitsPerOne`:
from `low` to `high`, the ends included if `closed`. -/
structure ReadingInterval where
  low : Nat
  high : Nat
  closed : Bool

/-- The interval of a positive magnitude reaches halfway to both neighbours. -/
def readingInterval (m : Nat) : ReadingInterval where
  low := unitsOfMagnitude (m - 1) + unitsOfMagnitude m
  high := unitsOfMagnitude m + unitsOfMagnitude (m + 1)
  closed := m % 2 == 0

/-- Whether `digits * 10 ^ exponent` lies in the interval. -/
def ReadingInterval.contains (i : ReadingInterval) (digits : Nat) (exponent : Int) : Bool :=
  let (p, q) := scaleTen digits exponent
  let value := p * (2 * unitsPerOne)
  if i.closed then decide (i.low * q ≤ value) && decide (value ≤ i.high * q)
  else decide (i.low * q < value) && decide (value < i.high * q)

/-- Of the two neighbours of `num / den` among the multiples of `10 ^ exponent`, the nearest one
that lies in the interval. -/
def nearestIn (i : ReadingInterval) (num den : Nat) (exponent : Int) : Option Nat :=
  let (p, q) := scaleTen 1 exponent
  let below := num * q / (den * p)
  let inside := (i.contains below exponent, i.contains (below + 1) exponent)
  match inside with
  | (false, false) => none
  | (true, false) => some below
  | (false, true) => some (below + 1)
  | (true, true) =>
    if 2 * (num * q % (den * p)) < den * p then some below else some (below + 1)

/-- The fewest digits that read back to a positive magnitude, with the exponent of the last one. -/
def shortestDigits (m : Nat) : Nat × Int :=
  let num := unitsOfMagnitude m
  let top := decimalExponent num unitsPerOne
  let interval := readingInterval m
  let found := (List.range 17).findSome? fun (n : Nat) =>
    (nearestIn interval num unitsPerOne (top - n)).map fun digits => (digits, top - (n : Int))
  found.getD (num / unitsPerOne, 0)

/-- The text of a double. -/
def text (x : Double) : String :=
  if x.isNaN then "NaN"
  else
    let sign := if x.isNegative then "-" else ""
    if x.isInfinite then sign ++ "inf"
    else if x.isZero then sign ++ "0"
    else
      let (digits, exponent) := shortestDigits x.magnitude
      sign ++ positional digits exponent

instance : ToString Double := ⟨text⟩

end Muster.Double
