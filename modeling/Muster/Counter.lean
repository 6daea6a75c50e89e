/-!
Counters that stop at their limits instead of running over.
-/

namespace Muster

/-- The whole numbers that a counter can hold. -/
structure CounterRange where
  least : Int
  greatest : Int
  least_le_greatest : least ≤ greatest

namespace CounterRange

/-- The whole numbers of `bits` bits without a sign. -/
def unsigned (bits : Nat) : CounterRange where
  least := 0
  greatest := (Nat.pow 2 bits : Nat) - 1
  least_le_greatest := by
    have : 0 < Nat.pow 2 bits := Nat.pow_pos (by decide)
    omega

/-- The whole numbers of one sign bit and `bits` further bits. -/
def signed (bits : Nat) : CounterRange where
  least := -(Nat.pow 2 bits : Nat)
  greatest := (Nat.pow 2 bits : Nat) - 1
  least_le_greatest := by
    have : 0 < Nat.pow 2 bits := Nat.pow_pos (by decide)
    omega

/-- The number of the range nearest to `n`. -/
def clamp (r : CounterRange) (n : Int) : Int := max r.least (min r.greatest n)

/-- Adds `amount`, stopping at the ends of the range. -/
def bumpBy (r : CounterRange) (n amount : Int) : Int := r.clamp (n + amount)

/-- Adds one, stopping at the upper end of the range. -/
def bump (r : CounterRange) (n : Int) : Int := r.bumpBy n 1

end CounterRange

/-- The larger of a slot and a candidate; the slot stays unless the candidate is larger. -/
def raiseTo {α : Type} [LT α] [DecidableLT α] (slot candidate : α) : α :=
  if slot < candidate then candidate else slot

/-- The greatest number of 64 bits, where tallies stop. -/
def tallyLimit : Nat := 0xFFFFFFFFFFFFFFFF

/-- The sum of two tallies, at most `tallyLimit`. -/
def tallyAdd (a b : Nat) : Nat := Nat.min (a + b) tallyLimit

/-- One more than a tally, at most `tallyLimit`. -/
def tally (n : Nat) : Nat := tallyAdd n 1

end Muster
