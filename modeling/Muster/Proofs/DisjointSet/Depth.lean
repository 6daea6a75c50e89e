import Mathlib.Data.Nat.Log
import Muster.Proofs.DisjointSet.Rollback

/-!
Paths in a disjoint set. Sizes are kept at elements that are no roots any more, and they double
along every parent step. So a path of `k` steps ends at a set with `2 ^ k` elements or more, and no
path comes back to an element that it has left. Both hold after whatever unions were made and taken
back, since the structure is then one that unions alone have made.

Main statements: `iterate_findSteps`, `two_pow_findSteps_le`, `parentOf_eq_of_iterate_eq`,
`isShallow_run`.
-/

namespace Muster
namespace DisjointSet

/-- The number of parent steps that a climb takes. -/
def climbSteps (parent : Array Nat) : Nat → Nat → Nat
  | 0, _ => 0
  | fuel + 1, x =>
    let p := parent.getD x x
    if p = x then 0 else climbSteps parent fuel p + 1

/-- The number of parent steps that `find` takes from `x`. -/
def findSteps (s : DisjointSet) (x : Nat) : Nat := climbSteps s.parent s.length x

/-- From every element below `n` there is a way of parent steps to the root, each to another
element, and `find` goes it to its end. It is no longer than the logarithm of the size of the set,
and no parent steps lead from an element back to itself, unless it is a root. -/
structure IsShallow (s : DisjointSet) (n : Nat) : Prop where
  iterate_findSteps : ∀ x < n, s.parentOf^[s.findSteps x] x = s.find x
  parentOf_find : ∀ x < n, s.parentOf (s.find x) = s.find x
  iterate_succ_ne : ∀ x < n, ∀ k < s.findSteps x, s.parentOf^[k + 1] x ≠ s.parentOf^[k] x
  findSteps_le : ∀ x < n, s.findSteps x ≤ Nat.log 2 (s.sizeOf x)
  parentOf_eq : ∀ x < n, ∀ k, 0 < k → s.parentOf^[k] x = x → s.parentOf x = x

/-! ### The steps of a climb -/

theorem climbSteps_succ (s : DisjointSet) (k x : Nat) : climbSteps s.parent (k + 1) x =
    if s.parentOf x = x then 0 else climbSteps s.parent k (s.parentOf x) + 1 := rfl

theorem iterate_climbSteps (s : DisjointSet) (k x : Nat) :
    s.parentOf^[climbSteps s.parent k x] x = climb s.parent k x := by
  induction k generalizing x with
  | zero => rfl
  | succ k ih =>
    rw [climbSteps_succ]
    by_cases hroot : s.parentOf x = x
    · rw [if_pos hroot, climb_of_root hroot]
      rfl
    · rw [if_neg hroot, Function.iterate_succ_apply, ih, climb_succ]

/-- As long as a climb goes on it comes to another element with each step. -/
theorem iterate_succ_ne_of_lt (s : DisjointSet) {k j x : Nat} (h : j < climbSteps s.parent k x) :
    s.parentOf^[j + 1] x ≠ s.parentOf^[j] x := by
  induction k generalizing j x with
  | zero => exact absurd h (Nat.not_lt_zero j)
  | succ k ih =>
    rw [climbSteps_succ] at h
    by_cases hroot : s.parentOf x = x
    · rw [if_pos hroot] at h
      exact absurd h (Nat.not_lt_zero j)
    · rw [if_neg hroot] at h
      cases j with
      | zero => exact hroot
      | succ j =>
        rw [Function.iterate_succ_apply, Function.iterate_succ_apply]
        exact ih (Nat.lt_of_succ_lt_succ h)

/-! ### Sizes along a path -/

section Forest

variable {s : DisjointSet} (hs : s.IsForest) {x : Nat} (hx : x < s.length)
include hs hx

theorem iterate_parentOf_lt (k : Nat) : s.parentOf^[k] x < s.length := by
  rw [← climb_eq_iterate]
  exact climb_lt hs k hx

/-- A path of `k` steps ends at a size that has doubled `k` times. -/
theorem two_pow_mul_sizeAt_le {k : Nat} (h : ∀ j < k, s.parentOf^[j + 1] x ≠ s.parentOf^[j] x) :
    2 ^ k * s.sizeAt x ≤ s.sizeAt (s.parentOf^[k] x) := by
  induction k with
  | zero => simp
  | succ k ih =>
    have hlast := h k (Nat.lt_succ_self k)
    rw [Function.iterate_succ_apply'] at hlast ⊢
    calc 2 ^ (k + 1) * s.sizeAt x = 2 * (2 ^ k * s.sizeAt x) := by ring
      _ ≤ 2 * s.sizeAt (s.parentOf^[k] x) :=
        Nat.mul_le_mul_left 2 (ih fun j hj => h j (Nat.lt_succ_of_lt hj))
      _ ≤ s.sizeAt (s.parentOf (s.parentOf^[k] x)) :=
        hs.size_double _ (iterate_parentOf_lt hs hx k) hlast

theorem two_pow_findSteps_le : 2 ^ s.findSteps x ≤ s.sizeOf x := by
  have hdouble := two_pow_mul_sizeAt_le hs hx (k := s.findSteps x)
    fun j hj => iterate_succ_ne_of_lt s hj
  rw [findSteps, iterate_climbSteps] at hdouble
  calc 2 ^ s.findSteps x ≤ 2 ^ s.findSteps x * s.sizeAt x :=
        Nat.le_mul_of_pos_right _ (hs.size_pos x hx)
    _ ≤ s.sizeAt (s.find x) := hdouble

/-- Sizes do not shrink on the way to the root. -/
theorem sizeAt_le_iterate (k : Nat) : s.sizeAt x ≤ s.sizeAt (s.parentOf^[k] x) := by
  induction k with
  | zero => exact Nat.le_refl _
  | succ k ih =>
    rw [Function.iterate_succ_apply']
    by_cases hroot : s.parentOf (s.parentOf^[k] x) = s.parentOf^[k] x
    · rwa [hroot]
    · have hdouble := hs.size_double _ (iterate_parentOf_lt hs hx k) hroot
      omega

/-- Parent steps that come back to where they began have begun at a root. -/
theorem parentOf_eq_of_iterate_eq {k : Nat} (hk : 0 < k) (h : s.parentOf^[k] x = x) :
    s.parentOf x = x := by
  by_contra hroot
  obtain ⟨k, rfl⟩ := Nat.exists_eq_succ_of_ne_zero hk.ne'
  rw [Function.iterate_succ_apply] at h
  -- the first step doubles the size, and the others cannot take that back
  have hdouble := hs.size_double x hx hroot
  have hback := sizeAt_le_iterate hs (hs.parentOf_lt x hx) k
  rw [h] at hback
  have hpos := hs.size_pos x hx
  omega

end Forest

theorem IsForest.isShallow {s : DisjointSet} (hs : s.IsForest) : s.IsShallow s.length where
  iterate_findSteps _ _ := iterate_climbSteps s s.length _
  parentOf_find _ _ := DisjointSet.parentOf_find hs _
  iterate_succ_ne _ _ _ hk := iterate_succ_ne_of_lt s hk
  findSteps_le _ hx := Nat.le_log_of_pow_le Nat.one_lt_two (two_pow_findSteps_le hs hx)
  parentOf_eq _ hx _ hk h := parentOf_eq_of_iterate_eq hs hx hk h

/-- Whatever calls are made on `n` single elements, no path to a root is longer than the logarithm
of the size of its set, and following parents never goes in a circle. -/
theorem isShallow_run {n : Nat} {calls : List SetCall} (h : ∀ c ∈ calls, c.isBelow n) :
    (run n calls).IsShallow n := by
  obtain ⟨hpartition, hlength⟩ := (isMadeOf_run h).isPartition
  have hshallow := hpartition.toIsForest.isShallow
  rwa [hlength] at hshallow

/-- Sets are merged in pairs of equal size, with merges taken back in between. -/
def pairingCalls : List SetCall :=
  [.union 0 1, .union 2 3, .union 0 2, .union 4 5, .union 0 4, .undoLast, .union 6 7, .union 4 6,
    .union 7 0, .rollbackTo 6, .union 0 4]

/-- The last element is as far from its root as the size of its set allows. -/
theorem isShallow_run_pairing : (∀ c ∈ pairingCalls, c.isBelow 8) ∧
    mergesOf pairingCalls = [(0, 4), (4, 6), (6, 7), (4, 5), (0, 2), (2, 3), (0, 1)] ∧
    (run 8 pairingCalls).findSteps 7 = 3 ∧ (run 8 pairingCalls).sizeOf 7 = 8 ∧
    (run 8 pairingCalls).findSteps 7 ≤ Nat.log 2 ((run 8 pairingCalls).sizeOf 7) ∧
    ∀ k, 0 < k → (run 8 pairingCalls).parentOf^[k] 7 ≠ 7 := by
  have hbelow : ∀ c ∈ pairingCalls, c.isBelow 8 := by decide
  have hshallow := isShallow_run hbelow
  have hroot : (run 8 pairingCalls).parentOf 7 ≠ 7 := by decide +kernel
  refine ⟨hbelow, by decide +kernel, by decide +kernel, by decide +kernel,
    hshallow.findSteps_le 7 (by decide), fun k hk h => hroot ?_⟩
  exact hshallow.parentOf_eq 7 (by decide) k hk h

end DisjointSet
end Muster
