import Muster.Counter

/-!
Tallies as numbers: a tally of something that has happened `n` times is `capped n`, whatever `n` is.

Main statements: `tally_capped`, `tally_eq`.
-/

namespace Muster

/-- What a tally shows of a number. -/
def capped (n : Nat) : Nat := min n tallyLimit

theorem tallyAdd_eq (a b : Nat) : tallyAdd a b = min (a + b) tallyLimit := rfl

theorem tally_eq (n : Nat) : tally n = min (n + 1) tallyLimit := rfl

theorem capped_le (n : Nat) : capped n ≤ n := Nat.min_le_left n tallyLimit

theorem capped_le_capped {m n : Nat} (h : m ≤ n) : capped m ≤ capped n := by
  rw [capped, capped]
  omega

theorem tally_capped (n : Nat) : tally (capped n) = capped (n + 1) := by
  rw [tally_eq, capped, capped]
  omega

theorem tallyAdd_capped (a b : Nat) : tallyAdd (capped a) (capped b) = capped (a + b) := by
  rw [tallyAdd_eq, capped, capped, capped]
  omega

end Muster
