import Mathlib.Algebra.BigOperators.Group.Finset.Piecewise
import Mathlib.Algebra.BigOperators.Ring.Finset
import Muster.Proofs.Counter
import Muster.Proofs.Partition.Enumeration

/-!
How many partitions there are. Labels for `n` more items, when `used` are in use, begin with one of
these or with a new one, so their number is `growths used n`; all partitions of `n` items are
`growths 0 n`. A number of the triangle counts the labels for some items and then for others that
have one label more to choose from (`spread`), and its first column counts the partitions.

Main statements: `sum_length_labelings`, `spread_zero_right`, `bellNumber_eq`.
-/

namespace Muster

/-- The number of ways to label `n` more items when `used` labels are in use. -/
def growths : Nat → Nat → Nat
  | _, 0 => 1
  | used, n + 1 => used * growths used n + growths (used + 1) n

/-! ### Labelings -/

section Labelings

variable {blocks used n : Nat}

theorem labelings_of_lt (h : used + n < blocks) : labelings blocks used n = [] := by
  rw [← List.head?_eq_none_iff, head?_labelings (by omega) (by omega), if_neg (by omega)]

theorem labelings_of_gt (h : blocks < used) : labelings blocks used n = [] := by
  rw [List.eq_nil_iff_forall_not_mem]
  intro labels hlabels
  have hle := le_foldl_usedAfter labels used
  rw [(mem_labelings.1 hlabels).2.2] at hle
  omega

theorem length_labelings_succ (blocks used n : Nat) : (labelings blocks used (n + 1)).length =
    used * (labelings blocks used n).length + (labelings blocks (used + 1) n).length := by
  have hold : ((List.range' 0 used).flatMap fun l =>
      (labelings blocks used n).map (l :: ·)).length = used * (labelings blocks used n).length := by
    simp [List.length_flatMap]
  rw [labelings, List.length_append, hold]
  split
  · rw [List.length_map]
  · rw [labelings_of_gt (by omega : blocks < used + 1)]

/-- Counted by the labels in use at the end, all labelings are there. -/
theorem sum_length_labelings {bound : Nat} : ∀ {n used : Nat}, used + n < bound →
    ∑ blocks ∈ Finset.range bound, (labelings blocks used n).length = growths used n
  | 0, used, h => by
    have hone : ∀ blocks, (labelings blocks used 0).length = if used = blocks then 1 else 0 := by
      intro blocks
      rw [labelings]
      split <;> rfl
    simp only [hone, Finset.sum_ite_eq, Finset.mem_range]
    rw [if_pos (by omega), growths]
  | n + 1, used, h => by
    simp only [length_labelings_succ, Finset.sum_add_distrib, ← Finset.mul_sum]
    rw [sum_length_labelings (by omega), sum_length_labelings (by omega), growths]

/-- If every item gets a label of its own there is one labeling. -/
theorem labelings_all (used : Nat) : ∀ n, labelings (used + n) used n = [List.range' used n]
  | 0 => by simp [labelings]
  | n + 1 => by
    have hold : labelings (used + (n + 1)) used n = [] := labelings_of_lt (by omega)
    have hnew : labelings (used + (n + 1)) (used + 1) n = [List.range' (used + 1) n] := by
      rw [← labelings_all (used + 1) n, Nat.add_assoc, Nat.add_comm 1 n]
    rw [labelings, hold, if_pos (by omega), hnew]
    simp [List.range'_succ]

end Labelings

/-! ### The triangle -/

/-- The number of ways to label `m` items and then `k` others that have one label more to choose
from, when `used` labels are in use. -/
def spread (used : Nat) : Nat → Nat → Nat
  | 0, m => growths used m
  | k + 1, m => spread used k m + spread used k (m + 1)

theorem spread_succ_right : ∀ (k used m : Nat),
    spread used k (m + 1) = used * spread used k m + spread (used + 1) k m
  | 0, _, _ => rfl
  | k + 1, used, m => by
    have hfirst := spread_succ_right k used m
    have hsecond := spread_succ_right k used (m + 1)
    simp only [spread, Nat.mul_add]
    omega

/-- One label more to choose from is one more in use. -/
theorem spread_zero_right : ∀ k used : Nat, spread used k 0 = growths (used + 1) k
  | 0, _ => rfl
  | k + 1, used => by
    rw [spread, spread_succ_right, spread_zero_right k used, spread_zero_right k (used + 1), growths,
      Nat.add_mul]
    omega

/-- The row of the triangle that begins with the number of partitions of `n` items. -/
def triangleRow (n : Nat) : List Nat :=
  (List.range (n + 1)).map fun k => capped (spread 0 k (n - k))

theorem scanl_map_range {f g : Nat → Nat} : ∀ {n : Nat},
    (∀ k < n, tallyAdd (g k) (f k) = g (k + 1)) →
    ((List.range n).map f).scanl tallyAdd (g 0) = (List.range (n + 1)).map g
  | 0, _ => rfl
  | n + 1, h => by
    have hrest := scanl_map_range (f := f ∘ Nat.succ) (g := g ∘ Nat.succ)
      fun k hk => h (k + 1) (Nat.succ_lt_succ hk)
    rw [List.range_succ_eq_map (n := n + 1), List.map_cons, List.map_map, ← hrest,
      List.range_succ_eq_map, List.map_cons, List.map_map, List.scanl_cons, h 0 (Nat.succ_pos n)]
    rfl

theorem nextTriangleRow_triangleRow (n : Nat) :
    nextTriangleRow (triangleRow n) = triangleRow (n + 1) := by
  have hlast : (triangleRow n).getLast?.getD 1 = capped (spread 0 0 (n + 1)) := by
    rw [triangleRow, List.range_succ, List.map_append, List.map_singleton, List.getLast?_concat,
      Nat.sub_self, spread_zero_right, spread, growths]
    simp
  rw [nextTriangleRow, hlast, triangleRow]
  refine scanl_map_range (g := fun k => capped (spread 0 k (n + 1 - k))) fun k hk => ?_
  have hk : n + 1 - k = n - k + 1 := by omega
  have hk' : n + 1 - (k + 1) = n - k := by omega
  rw [tallyAdd_capped, hk, hk', spread, Nat.add_comm]

/-- The number of partitions, as far as 64 bits hold it. -/
theorem bellNumber_eq (n : Nat) : bellNumber n = capped (growths 0 n) := by
  have hrow : Nat.repeat nextTriangleRow n [1] = triangleRow n := by
    induction n with
    | zero => rfl
    | succ n ih => rw [Nat.repeat, ih, nextTriangleRow_triangleRow]
  rw [bellNumber, hrow, triangleRow, List.range_succ_eq_map]
  rfl

example : (List.range 7).map (growths 0) = [1, 1, 2, 5, 15, 52, 203] := by decide

end Muster
