/-!
Doubles: binary floating-point numbers of 64 bits, given by their bit patterns.

A pattern is a sign bit above a magnitude of 63 bits. Magnitudes are ordered as the absolute values
they stand for, so comparisons read the pattern alone; magnitudes above `infinityMagnitude` stand
for no number. `units` reads a finite pattern as a whole number of the least positive double,
`2 ^ (-1074)`, which makes every finite double an integer.
-/

namespace Muster

/-- A binary floating-point number of 64 bits. -/
structure Double where
  bits : UInt64
deriving DecidableEq, Inhabited

namespace Double

/-- The sign bit of a pattern. -/
def signBit : Nat := 0x8000000000000000

/-- One more than the greatest fraction, which is what the bits below the exponent hold. Numbers
with an exponent above zero have it as a leading bit that is not written. -/
def fractionSize : Nat := 0x10000000000000

/-- The magnitude of the infinities; larger ones stand for no number. -/
def infinityMagnitude : Nat := 2047 * fractionSize

/-- Whether the sign bit is set. -/
def isNegative (x : Double) : Bool := decide (signBit ≤ x.bits.toNat)

/-- The pattern without its sign bit. -/
def magnitude (x : Double) : Nat := x.bits.toNat % signBit

/-- The double of a sign and a magnitude. -/
def ofMagnitude (negative : Bool) (m : Nat) : Double :=
  ⟨.ofNat (if negative then signBit + m else m)⟩

/-- Whether the pattern stands for no number. -/
def isNaN (x : Double) : Bool := decide (infinityMagnitude < x.magnitude)

/-- Whether the pattern stands for an infinity. -/
def isInfinite (x : Double) : Bool := decide (x.magnitude = infinityMagnitude)

/-- Whether the pattern stands for a finite number. -/
def isFinite (x : Double) : Bool := decide (x.magnitude < infinityMagnitude)

/-- Whether the pattern stands for zero, of either sign. -/
def isZero (x : Double) : Bool := decide (x.magnitude = 0)

def zero : Double := ⟨0⟩
def one : Double := ⟨0x3FF0000000000000⟩
def infinity : Double := ofMagnitude false infinityMagnitude
def negInfinity : Double := ofMagnitude true infinityMagnitude
def nan : Double := ⟨0x7FF8000000000000⟩

/-- The number with the other sign. -/
def neg (x : Double) : Double := ⟨x.bits ^^^ 0x8000000000000000⟩

/-- The place of a number among all numbers; both zeros have the same. -/
def rank (x : Double) : Int := if x.isNegative then -(x.magnitude : Int) else x.magnitude

/-- Whether `x` is less than `y`; nothing is, if either is no number. -/
def lt (x y : Double) : Bool := !x.isNaN && !y.isNaN && decide (x.rank < y.rank)

/-- Whether `x` is at most `y`; nothing is, if either is no number. -/
def le (x y : Double) : Bool := !x.isNaN && !y.isNaN && decide (x.rank ≤ y.rank)

/-- Whether `x` and `y` are the same number; the zeros are, and what is no number is not. -/
def same (x y : Double) : Bool := !x.isNaN && !y.isNaN && decide (x.rank = y.rank)

instance : LT Double := ⟨fun x y => x.lt y = true⟩
instance : LE Double := ⟨fun x y => x.le y = true⟩
instance (x y : Double) : Decidable (x < y) := inferInstanceAs (Decidable (x.lt y = true))
instance (x y : Double) : Decidable (x ≤ y) := inferInstanceAs (Decidable (x.le y = true))

/-- The place of a pattern in the total order: negative patterns that are no number come first,
then the numbers with `-0` before `0`, then positive patterns that are no number. -/
def totalRank (x : Double) : Int :=
  if x.isNegative then -(x.magnitude : Int) - 1 else x.magnitude

/-- The total order of patterns. -/
def totalCompare (x y : Double) : Ordering := compare x.totalRank y.totalRank

/-- The larger number, the second of two equal ones; what is no number gives way to the other. -/
def max (x y : Double) : Double :=
  if x.isNaN then y else if y.isNaN then x else if x ≤ y then y else x

/-- The smaller number, the second of two equal ones; what is no number gives way to the other. -/
def min (x y : Double) : Double :=
  if x.isNaN then y else if y.isNaN then x else if y ≤ x then y else x

/-- The least double above `x`; infinity and what is no number have none and stay. -/
def nextAbove (x : Double) : Double :=
  if x.isNaN || x == infinity then x
  else if x.isZero then ⟨1⟩
  else if x.isNegative then ⟨x.bits - 1⟩
  else ⟨x.bits + 1⟩

/-- The greatest double below `x`; negative infinity and what is no number have none and stay. -/
def nextBelow (x : Double) : Double := x.neg.nextAbove.neg

/-- The absolute value of a finite magnitude, counted in units of `2 ^ (-1074)`. -/
def unitsOfMagnitude (m : Nat) : Nat :=
  if m < fractionSize then m
  else (fractionSize + m % fractionSize) * Nat.pow 2 (m / fractionSize - 1)

/-- The value of a finite double, counted in units of `2 ^ (-1074)`. -/
def units (x : Double) : Int :=
  if x.isNegative then -(unitsOfMagnitude x.magnitude : Int) else unitsOfMagnitude x.magnitude

end Double
end Muster
