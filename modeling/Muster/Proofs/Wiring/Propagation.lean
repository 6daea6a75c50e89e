import Mathlib.Logic.Basic
import Muster.Wiring.Pruning

/-!
The pass over the endpoints that looks for a prune reason. It counts the endpoints that can still be
wired and marks their components, which is what a prune reason depends on. It begins without a mark,
so it gives the reason for the wiring that it looks at, whatever wiring the old marks are of.

Main statements: `foldl_markExit`, `propagate_eq`.
-/

namespace Muster
namespace PartialWiring

variable (w : PartialWiring) (p : WiringProblem)

/-- The marks of the components that can still be wired. -/
def exitMarks : Array Bool :=
  ((List.range p.endpointCount).foldl (w.markExit p) (0, Array.replicate p.instanceCount false)).2

/-- Marks that are taken away are not there when there is room for marks again. -/
theorem resizeMarks_shrink (marks : Array Bool) (n : Nat) :
    resizeMarks (marks.shrink 0) n = Array.replicate n false := by
  have hempty : marks.shrink 0 = #[] := by simp
  rw [resizeMarks, hempty]
  simp

theorem getD_setIfInBounds_true (marks : Array Bool) (i : Nat) {j : Nat} (hj : j < marks.size) :
    (marks.setIfInBounds i true).getD j false = (marks.getD j false || j == i) := by
  by_cases h : i = j
  · subst h
    simp [hj]
  · simp [hj, h, Ne.symm h]

/-- The pass counts the endpoints that can still be wired and marks their components. -/
theorem foldl_markExit : ∀ (es : List Nat) (n : Nat) (marks : Array Bool),
    (es.foldl (w.markExit p) (n, marks)).1 =
        n + (es.filter fun e => w.isOpen e && w.hasOpenCandidate p e).length ∧
      ∀ i < marks.size, (es.foldl (w.markExit p) (n, marks)).2.getD i false =
        (marks.getD i false || ((es.filter fun e => w.isOpen e && w.hasOpenCandidate p e).map
          fun e => w.componentOf (p.ownerOf e)).contains i)
  | [], n, marks => ⟨rfl, fun i _ => (Bool.or_false _).symm⟩
  | e :: es, n, marks => by
    rw [List.foldl_cons, List.filter_cons, markExit]
    split
    · obtain ⟨hcount, hmarks⟩ := foldl_markExit es (n + 1)
        (marks.setIfInBounds (w.componentOf (p.ownerOf e)) true)
      rw [Array.size_setIfInBounds] at hmarks
      refine ⟨by rw [hcount, List.length_cons]; omega, fun i hi => ?_⟩
      rw [hmarks i hi, getD_setIfInBounds_true marks _ hi, List.map_cons, List.contains_cons,
        Bool.or_assoc]
    · exact foldl_markExit es n marks

/-- The pass finds the prune reason, whatever marks there were, and leaves its own. -/
theorem propagate_eq (marks : Array Bool) : w.propagate p marks =
    (w.pruneReason p, if w.componentCount ≤ 1 then marks else w.exitMarks p) := by
  rw [propagate, pruneReason]
  by_cases hcomponents : w.componentCount ≤ 1
  · rw [if_pos hcomponents, if_pos hcomponents, if_pos hcomponents]
  · rw [if_neg hcomponents, if_neg hcomponents, if_neg hcomponents, resizeMarks_shrink]
    obtain ⟨hcount, hmarks⟩ := w.foldl_markExit p (List.range p.endpointCount) 0
      (Array.replicate p.instanceCount false)
    rw [Array.size_replicate] at hmarks
    have hroots : ((w.roots p).all fun i => (w.exitMarks p).getD i false) =
        (w.roots p).all ((w.branchable p).map fun e => w.componentOf (p.ownerOf e)).contains := by
      rw [Bool.eq_iff_iff, List.all_eq_true, List.all_eq_true]
      refine forall₂_congr fun i hi => ?_
      have hlt : i < p.instanceCount := List.mem_range.1 (List.mem_filter.1 hi).1
      rw [exitMarks, hmarks i hlt, branchable]
      simp [hlt]
    rw [Nat.zero_add] at hcount
    show (if !(w.roots p).all fun i => (w.exitMarks p).getD i false then _ else
      if _ < _ then _ else _) = _
    rw [hroots, hcount, branchable]
    simp only [apply_ite (Prod.mk · (w.exitMarks p))]
    rfl

end PartialWiring
end Muster
