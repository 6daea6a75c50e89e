import Muster.Ordered.Sorted
import Muster.Pool.Basic

/-!
Pools written out instance by instance: `A: 2, B: 1` becomes `A, A, B`.
-/

namespace Muster

open Std

/-- A list of instances in the order of their models. -/
structure AtomList where
  atoms : List Model
  ascending : atoms.Pairwise (fun a b => (compare a b).isLE)

namespace AtomList

/-- Puts instances in order. -/
def ofModels (ms : List Model) : AtomList where
  atoms := sorted ms
  ascending := pairwise_sorted ms

/-- The greatest number of instances that is written out. -/
def limit : Nat := 1048576

/-- The entries of a pool, written out. -/
def expand (entries : List (Model × UInt32)) : List Model :=
  entries.flatMap fun e => List.replicate e.2.toNat e.1

theorem ascending_expand {es : List (Model × UInt32)}
    (h : es.Pairwise (fun e f => compare e.1 f.1 = .lt)) :
    (expand es).Pairwise (fun a b => (compare a b).isLE) := by
  induction es with
  | nil => exact .nil
  | cons e rest ih =>
    obtain ⟨he, hrest⟩ := List.pairwise_cons.1 h
    rw [expand, List.flatMap_cons, List.pairwise_append]
    refine ⟨List.pairwise_replicate.2 (.inr ?_), ih hrest, fun a ha b hb => ?_⟩
    · simp [ReflCmp.compare_self]
    · obtain ⟨f, hf, hb⟩ := List.mem_flatMap.1 hb
      rw [List.eq_of_mem_replicate ha, List.eq_of_mem_replicate hb, he f hf]
      rfl

/-- Writes a pool out, unless it holds more than `limit` instances. -/
def ofPool (p : Pool) : Except ModelError AtomList :=
  if p.totalAtoms ≤ limit then .ok ⟨expand p.entries, ascending_expand p.counts.ascending⟩
  else .error (.invalidArgument (p.text ++ " has " ++ toString p.totalAtoms ++
    " atoms, more than the " ++ toString limit ++ " a combination may list"))

/-- The number of instances. -/
def length (a : AtomList) : Nat := a.atoms.length

/-- Counts the instances of each model. -/
def toPool (a : AtomList) : Pool := .ofPairs (a.atoms.map fun m => (m, 1))

end AtomList
end Muster
