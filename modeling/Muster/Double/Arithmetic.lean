import Muster.Double.Basic

/-!
Arithmetic of doubles: each operation takes the exact result and rounds it once, to the nearest
double, a tie to the one with an even last bit. `magnitudeOfRatio` is that rounding; addition,
multiplication, division and reading a decimal number differ only in the ratio they give it.
-/

namespace Muster.Double

/-- How many units make one. -/
def unitsPerOne : Nat := Nat.pow 2 1074

/-- The whole number nearest to `a / d`, of two equally near ones the even one. -/
def roundHalfEven (a d : Nat) : Nat :=
  let q := a / d
  let r := a % d
  if 2 * r < d then q else if d < 2 * r then q + 1 else q + q % 2

/-- The magnitude nearest to `num / den` units. All but the 53 leading bits of the whole part are
rounded away; what the rounding carries over moves into the exponent by itself, and past the
largest exponent the magnitude is infinite. -/
def magnitudeOfRatio (num den : Nat) : Nat :=
  let shift := (num / den).log2 + 1 - 53
  Nat.min (shift * fractionSize + roundHalfEven num (den * Nat.pow 2 shift)) infinityMagnitude

/-- The double nearest to a signed ratio of units. -/
def ofRatio (negative : Bool) (num den : Nat) : Double :=
  ofMagnitude negative (magnitudeOfRatio num den)

/-- The double nearest to a whole number of units. -/
def ofUnits (u : Int) : Double := ofRatio (decide (u < 0)) u.natAbs 1

/-- The double nearest to a whole number. -/
def ofInt (n : Int) : Double := ofUnits (n * unitsPerOne)

/-- The double nearest to a natural number. -/
def ofNat (n : Nat) : Double := ofRatio false (n * unitsPerOne) 1

instance (n : Nat) : OfNat Double n := ⟨ofNat n⟩

/-- The double nearest to `digits * 10 ^ exponent`. -/
def ofDecimal (negative : Bool) (digits : Nat) (exponent : Int) : Double :=
  match exponent with
  | .ofNat e => ofRatio negative (digits * Nat.pow 10 e * unitsPerOne) 1
  | .negSucc e => ofRatio negative (digits * unitsPerOne) (Nat.pow 10 (e + 1))

/-- The sum. A sum that is zero is `-0` only if both terms are negative zeros. -/
def add (x y : Double) : Double :=
  if x.isNaN || y.isNaN then nan
  else if x.isInfinite then
    if y.isInfinite && x.isNegative != y.isNegative then nan else x
  else if y.isInfinite then y
  else
    let u := x.units + y.units
    if u = 0 then ofMagnitude (x.isNegative && y.isNegative) 0 else ofUnits u

/-- The product, negative if just one factor is. -/
def mul (x y : Double) : Double :=
  let negative := x.isNegative != y.isNegative
  if x.isNaN || y.isNaN then nan
  else if x.isInfinite || y.isInfinite then
    if x.isZero || y.isZero then nan else ofMagnitude negative infinityMagnitude
  else ofRatio negative (x.units.natAbs * y.units.natAbs) unitsPerOne

/-- The quotient, negative if just one operand is. -/
def div (x y : Double) : Double :=
  let negative := x.isNegative != y.isNegative
  if x.isNaN || y.isNaN then nan
  else if x.isInfinite then
    if y.isInfinite then nan else ofMagnitude negative infinityMagnitude
  else if y.isInfinite then ofMagnitude negative 0
  else if y.isZero then
    if x.isZero then nan else ofMagnitude negative infinityMagnitude
  else ofRatio negative (x.units.natAbs * unitsPerOne) y.units.natAbs

instance : Add Double := ⟨add⟩
instance : Mul Double := ⟨mul⟩
instance : Div Double := ⟨div⟩
instance : Neg Double := ⟨neg⟩

/-- The least whole number at or above a finite double. -/
def ceilInt (x : Double) : Int := -(-x.units / unitsPerOne)

/-- The least whole double at or above `x`; a zero keeps the sign of `x`. -/
def ceil (x : Double) : Double :=
  if !x.isFinite then x
  else
    let n := x.ceilInt
    if n = 0 then ofMagnitude x.isNegative 0 else ofInt n

/-- The whole part of `x`, kept within `0` and `limit`; what is no number counts as zero. -/
def toNatUpTo (limit : Nat) (x : Double) : Nat :=
  if x.isNaN || x.isNegative then 0
  else if x.isInfinite then limit
  else Nat.min (x.units.natAbs / unitsPerOne) limit

end Muster.Double
