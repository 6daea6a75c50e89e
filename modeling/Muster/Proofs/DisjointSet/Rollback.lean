import Muster.Proofs.DisjointSet.Groups

/-!
Disjoint sets under any calls that merge sets and take merges back. A merge that is taken back leaves
no trace, so after the calls the structure is the one that the merges still standing make of single
elements (`isMadeOf_run`). Its sets are therefore the classes of the equivalence that these merges
generate, and going back to a mark gives the whole structure of the time when the mark was taken.

Main statements: `IsMadeOf.perform`, `IsMadeOf.isPartitionBy`, `isPartitionBy_run`.
-/

namespace Muster

open Relation (EqvGen)

/-! ### Merges -/

/-- Whether merges, each of two elements, link `x` and `y`. -/
def Joined (merges : List (Nat × Nat)) (x y : Nat) : Prop := EqvGen (fun i j => (i, j) ∈ merges) x y

/-- A label that elements share just if merges, the last one first, link them: a merge gives the
label of the second set to the first. -/
def labelOf : List (Nat × Nat) → Nat → Nat
  | [], x => x
  | (a, b) :: earlier, x =>
    if labelOf earlier x = labelOf earlier a then labelOf earlier b else labelOf earlier x

theorem joined_cons_iff {merges : List (Nat × Nat)} {a b x y : Nat} :
    Joined ((a, b) :: merges) x y ↔ Joined merges x y ∨
      (Joined merges x a ∧ Joined merges y b) ∨ (Joined merges x b ∧ Joined merges y a) := by
  have hrel : ∀ i j, (i, j) ∈ (a, b) :: merges ↔ (i, j) ∈ merges ∨ (i = a ∧ j = b) := by
    intro i j
    rw [List.mem_cons, Prod.mk.injEq, or_comm]
  simp only [Joined, hrel, eqvGen_or_iff]

theorem labelOf_eq_iff {merges : List (Nat × Nat)} :
    ∀ {x y : Nat}, labelOf merges x = labelOf merges y ↔ Joined merges x y := by
  induction merges with
  | nil =>
    intro x y
    have hnone : Joined [] x y ↔ EqvGen (fun _ _ => False) x y := by simp [Joined]
    rw [hnone, ← DisjointSet.represents_singletons 0 x y]
    simp [labelOf]
  | cons m earlier ih =>
    intro x y
    obtain ⟨a, b⟩ := m
    rw [joined_cons_iff, ← ih, ← ih, ← ih, ← ih, ← ih, labelOf, labelOf]
    grind

instance (merges : List (Nat × Nat)) (x y : Nat) : Decidable (Joined merges x y) :=
  decidable_of_iff _ labelOf_eq_iff

/-! ### Calls -/

/-- A call that may change a disjoint set. -/
inductive SetCall where
  | union (a b : Nat)
  | undoLast
  | rollbackTo (mark : Nat)
deriving DecidableEq

namespace SetCall

/-- Whether a call is about elements below `n`. -/
def isBelow (n : Nat) : SetCall → Bool
  | union a b => a < n && b < n
  | _ => true

/-- The disjoint set after a call. -/
def perform (s : DisjointSet) : SetCall → DisjointSet
  | union a b => (s.union a b).2
  | undoLast => s.undoLast.2
  | rollbackTo mark => s.rollbackTo mark

/-- The merges still standing after a call, the last one first. A union is a merge if its elements
are not linked, and merges are taken back from the last one on. -/
def standing (merges : List (Nat × Nat)) : SetCall → List (Nat × Nat)
  | union a b => if Joined merges a b then merges else (a, b) :: merges
  | undoLast => merges.tail
  | rollbackTo mark => merges.drop (merges.length - mark)

/-- A call that leaves as many merges standing does not touch the first of them. -/
theorem suffix_standing {c : SetCall} {kept merges : List (Nat × Nat)} (h : kept <:+ merges)
    (hlength : kept.length ≤ (c.standing merges).length) : kept <:+ c.standing merges := by
  cases c with
  | union a b =>
    rw [standing]
    split
    · exact h
    · exact h.trans (List.suffix_cons _ _)
  | undoLast => exact List.suffix_of_suffix_length_le h (List.tail_suffix _) hlength
  | rollbackTo mark => exact List.suffix_of_suffix_length_le h (List.drop_suffix _ _) hlength

end SetCall

namespace DisjointSet

/-- The disjoint set that calls make of `n` single elements. -/
def run (n : Nat) (calls : List SetCall) : DisjointSet :=
  calls.foldl SetCall.perform (singletons n)

/-- The merges still standing after calls, the last one first. -/
def mergesOf (calls : List SetCall) : List (Nat × Nat) := calls.foldl SetCall.standing []

theorem run_concat (n : Nat) (calls : List SetCall) (c : SetCall) :
    run n (calls ++ [c]) = c.perform (run n calls) := by
  rw [run, List.foldl_append]
  rfl

theorem mergesOf_concat (calls : List SetCall) (c : SetCall) :
    mergesOf (calls ++ [c]) = c.standing (mergesOf calls) := by
  rw [mergesOf, List.foldl_append]
  rfl

/-! ### What merges make of single elements -/

/-- Merges, the last one first, make `s` of `n` single elements. -/
inductive IsMadeOf (n : Nat) : List (Nat × Nat) → DisjointSet → Prop
  | start : IsMadeOf n [] (singletons n)
  | merge {merges : List (Nat × Nat)} {s : DisjointSet} {a b : Nat} (h : IsMadeOf n merges s)
    (ha : a < n) (hb : b < n) (hne : s.find a ≠ s.find b) :
    IsMadeOf n ((a, b) :: merges) (s.union a b).2

/-- The sets of `s` are the classes of the numbers below `n` that merges link, and all that `s`
answers agrees with that. -/
structure IsPartitionBy (s : DisjointSet) (n : Nat) (merges : List (Nat × Nat)) : Prop where
  exists_iterate : ∀ x < n, s.find x < n ∧ s.parentOf (s.find x) = s.find x ∧
    ∃ k, s.parentOf^[k] x = s.find x
  find_eq_iff : ∀ x < n, ∀ y < n, s.find x = s.find y ↔ Joined merges x y
  fst_union_iff : ∀ a < n, ∀ b < n, (s.union a b).1 = true ↔ ¬ Joined merges a b
  listsClasses : ListsClasses n (Joined merges) s.groups
  components_eq : s.components = s.groups.length
  sizeOf_eq : ∀ g ∈ s.groups, ∀ x ∈ g, s.sizeOf x = g.length
  checkpoint_eq : s.checkpoint = merges.length

/-- Climbing is following parents. -/
theorem climb_eq_iterate (s : DisjointSet) (k x : Nat) : climb s.parent k x = s.parentOf^[k] x := by
  induction k generalizing x with
  | zero => rfl
  | succ k ih => rw [climb_succ, ih, Function.iterate_succ_apply]

theorem length_history_union {s : DisjointSet} (hs : s.IsPartition) {a b : Nat} (ha : a < s.length)
    (hb : b < s.length) (hne : s.find a ≠ s.find b) :
    (s.union a b).2.history.length = s.history.length + 1 := by
  rcases union_cases hs ha hb with ⟨heq, -⟩ | ⟨c, p, -, -, -, -, -, -, -, h⟩
  · exact absurd heq hne
  · rw [h]
    rfl

section IsMadeOf

variable {n : Nat} {merges : List (Nat × Nat)} {s s' : DisjointSet}

theorem IsMadeOf.isPartition (h : IsMadeOf n merges s) : s.IsPartition ∧ s.length = n := by
  induction h with
  | start => exact ⟨isPartition_singletons n, length_singletons n⟩
  | merge _ ha hb _ ih =>
    obtain ⟨hs, rfl⟩ := ih
    exact ⟨isPartition_union hs ha hb, length_union hs ha hb⟩

theorem IsMadeOf.represents (h : IsMadeOf n merges s) (x y : Nat) :
    s.find x = s.find y ↔ Joined merges x y := by
  induction h generalizing x y with
  | start => simp [← labelOf_eq_iff, labelOf]
  | merge h ha hb _ ih =>
    obtain ⟨hs, rfl⟩ := h.isPartition
    rw [find_union_eq_iff hs ha hb, joined_cons_iff, ih, ih, ih, ih, ih]

theorem IsMadeOf.length_history (h : IsMadeOf n merges s) : s.history.length = merges.length := by
  induction h with
  | start => rfl
  | merge h ha hb hne ih =>
    obtain ⟨hs, rfl⟩ := h.isPartition
    rw [length_history_union hs ha hb hne, ih, List.length_cons]

/-- Merges leave nothing open: parents, sizes, count and history all follow from them. -/
theorem IsMadeOf.unique (h : IsMadeOf n merges s) (h' : IsMadeOf n merges s') : s = s' := by
  induction h generalizing s' with
  | start =>
    cases h' with
    | start => rfl
  | merge _ _ _ _ ih =>
    cases h' with
    | merge h' _ _ _ => rw [ih h']

theorem IsMadeOf.undoLast (h : IsMadeOf n merges s) : IsMadeOf n merges.tail s.undoLast.2 := by
  cases h with
  | start => exact .start
  | merge h ha hb hne =>
    obtain ⟨hs, rfl⟩ := h.isPartition
    rw [undoLast_union hs ha hb hne]
    exact h

theorem IsMadeOf.undoMany (h : IsMadeOf n merges s) (k : Nat) :
    IsMadeOf n (merges.drop k) (s.undoMany k) := by
  induction k generalizing merges s with
  | zero => exact h
  | succ k ih =>
    rw [← List.drop_tail]
    exact ih h.undoLast

theorem IsMadeOf.rollbackTo (h : IsMadeOf n merges s) (mark : Nat) :
    IsMadeOf n (merges.drop (merges.length - mark)) (s.rollbackTo mark) := by
  rw [DisjointSet.rollbackTo, h.length_history]
  exact h.undoMany _

theorem IsMadeOf.perform (h : IsMadeOf n merges s) {c : SetCall} (hc : c.isBelow n) :
    IsMadeOf n (c.standing merges) (c.perform s) := by
  cases c with
  | union a b =>
    simp only [SetCall.isBelow, Bool.and_eq_true, decide_eq_true_eq] at hc
    rw [SetCall.standing, SetCall.perform]
    by_cases hab : Joined merges a b
    · have hsame : (s.union a b).2 = s := by simp [union, (h.represents a b).2 hab]
      rwa [if_pos hab, hsame]
    · rw [if_neg hab]
      exact h.merge hc.1 hc.2 (mt (h.represents a b).1 hab)
  | undoLast => exact h.undoLast
  | rollbackTo mark => exact h.rollbackTo mark

theorem isMadeOf_run {calls : List SetCall} (h : ∀ c ∈ calls, c.isBelow n) :
    IsMadeOf n (mergesOf calls) (run n calls) := by
  induction calls using List.reverseRecOn with
  | nil => exact .start
  | append_singleton calls c ih =>
    rw [run_concat, mergesOf_concat]
    exact (ih fun d hd => h d (by simp [hd])).perform (h c (by simp))

theorem IsMadeOf.isPartitionBy (h : IsMadeOf n merges s) : s.IsPartitionBy n merges := by
  obtain ⟨hs, hlength⟩ := h.isPartition
  refine ⟨fun x hx => ⟨?_, parentOf_find hs.toIsForest x, s.length, ?_⟩,
    fun x _ y _ => h.represents x y, fun a ha b hb => ?_, ?_, (length_groups hs).symm,
    fun g hg x hx => sizeOf_eq_length hs hg hx, h.length_history⟩
  · rw [← hlength] at hx ⊢
    exact find_lt hs.toIsForest hx
  · exact (climb_eq_iterate s s.length x).symm
  · rw [← hlength] at ha hb
    rw [fst_union hs ha hb, ← h.represents a b]
    simp [same]
  · rw [← hlength]
    exact listsClasses_groups fun x _ y _ => h.represents x y

end IsMadeOf

/-! ### Going back -/

/-- Merges that stood after the first `i` calls stand as long as their number is not undercut. -/
theorem suffix_mergesOf {calls : List SetCall} {i j : Nat} (hij : i ≤ j) (hj : j ≤ calls.length)
    (h : ∀ m ≤ calls.length, i ≤ m →
      (mergesOf (calls.take i)).length ≤ (mergesOf (calls.take m)).length) :
    mergesOf (calls.take i) <:+ mergesOf (calls.take j) := by
  induction j, hij using Nat.le_induction with
  | base => exact List.suffix_refl _
  | succ j hij ih =>
    have hnext := h (j + 1) hj (by omega)
    rw [← List.take_concat_get' _ _ hj, mergesOf_concat] at hnext ⊢
    exact SetCall.suffix_standing (ih (by omega)) hnext

/-- Whatever calls are made on single elements, the sets are the classes that the merges still
standing link. Going back to a mark that was taken after the first `i` calls gives the structure of
that time, unless calls since then have gone back behind the mark. -/
theorem isPartitionBy_run {n : Nat} {calls : List SetCall} (h : ∀ c ∈ calls, c.isBelow n) :
    (run n calls).IsPartitionBy n (mergesOf calls) ∧
    ∀ i ≤ calls.length, (∀ j ≤ calls.length, i ≤ j →
        (run n (calls.take i)).checkpoint ≤ (run n (calls.take j)).checkpoint) →
      (run n calls).rollbackTo (run n (calls.take i)).checkpoint = run n (calls.take i) := by
  have hrun := isMadeOf_run h
  have hpart : ∀ j, IsMadeOf n (mergesOf (calls.take j)) (run n (calls.take j)) := fun j =>
    isMadeOf_run fun c hc => h c (List.mem_of_mem_take hc)
  refine ⟨hrun.isPartitionBy, fun i hi hmarks => ?_⟩
  simp only [checkpoint, (hpart _).length_history] at hmarks ⊢
  have hsuffix := suffix_mergesOf hi le_rfl hmarks
  rw [List.take_length, List.suffix_iff_eq_drop] at hsuffix
  have hback := hrun.rollbackTo (mergesOf (calls.take i)).length
  rw [← hsuffix] at hback
  exact hback.unique (hpart i)

/-- The second union merges nothing, and of the three merges after it one is left. -/
def fiveElementCalls : List SetCall :=
  [.union 0 1, .union 1 0, .union 1 2, .union 3 4, .union 0 4, .rollbackTo 2, .union 4 2]

theorem isPartitionBy_run_fiveElements : (∀ c ∈ fiveElementCalls, c.isBelow 5) ∧
    mergesOf fiveElementCalls = [(4, 2), (1, 2), (0, 1)] ∧
    (run 5 fiveElementCalls).IsPartitionBy 5 (mergesOf fiveElementCalls) ∧
    (run 5 fiveElementCalls).groups = [[0, 1, 2, 4], [3]] ∧
    (run 5 fiveElementCalls).rollbackTo (run 5 [.union 0 1, .union 1 0]).checkpoint =
      run 5 [.union 0 1, .union 1 0] := by
  have hbelow : ∀ c ∈ fiveElementCalls, c.isBelow 5 := by decide
  obtain ⟨hpartition, hback⟩ := isPartitionBy_run hbelow
  exact ⟨hbelow, by decide +kernel, hpartition, by decide +kernel,
    hback 2 (by decide) (by decide +kernel)⟩

end DisjointSet
end Muster
