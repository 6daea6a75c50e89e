/-!
Lists put in order, with their repetitions.

Main statements: `pairwise_sorted`, `sorted_perm`.
-/

namespace Muster

open Std

variable {α : Type} [Ord α]

/-- The members of a list in ascending order; equal members stay in the order they have. -/
def sorted (xs : List α) : List α := xs.mergeSort fun a b => (compare a b).isLE

theorem sorted_perm (xs : List α) : (sorted xs).Perm xs := List.mergeSort_perm ..

theorem pairwise_sorted [TransOrd α] (xs : List α) :
    (sorted xs).Pairwise fun a b => (compare a b).isLE := by
  refine List.pairwise_mergeSort (fun a b c hab hbc => ?_) (fun a b => ?_) xs
  · exact TransOrd.isLE_trans hab hbc
  · rw [OrientedOrd.eq_swap (a := b) (b := a)]
    cases compare a b <;> rfl

end Muster
