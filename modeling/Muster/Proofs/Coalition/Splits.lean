import Muster.Coalition.Search
import Muster.Pool.Algebra
import Muster.Proofs.Double.Order
import Muster.Proofs.Partition.Blocks

/-!
The structures that a search for coalitions goes through, in order, and what they are worth. They
are splits of the agents, ordered by the number of coalitions; and each split of the agents has the
same coalitions as one of them, up to the order in which the coalitions and their agents are listed.
That order does not matter for the pool of a coalition, so it does not for the worth of a split.

Main statements: `signature_eq_iff`, `isSplit_of_mem_structures`, `exists_mem_structures`,
`pairwise_structures`, `rank_weakest_of_unordered`.
-/

namespace Muster

/-! ### The pool of a coalition -/

namespace Pool

theorem add_right_comm (p : Pool) (m n : Model) (c : UInt32) :
    (p.add m c).add n c = (p.add n c).add m c := by
  by_cases h : n = m
  · rw [h]
  · have hcount : (p.add m c).count n = p.count n := by rw [count_add, if_neg h]
    have hcount' : (p.add n c).count m = p.count m := by rw [count_add, if_neg (Ne.symm h)]
    show (p.add m c).set n (addCounts ((p.add m c).count n) c) =
      (p.add n c).set m (addCounts ((p.add n c).count m) c)
    rw [hcount, hcount']
    refine congrArg Pool.mk (OrderedMap.ext_get? fun k => ?_)
    simp only [add, set, OrderedMap.get?_insert]
    by_cases hn : k = n
    · rw [if_pos hn, hn, if_neg h, if_pos rfl]
    · rw [if_neg hn, if_neg hn]

/-- The order of agents does not matter for their pool. -/
theorem ofAgents_perm {b c : List Agent} (h : b.Perm c) : ofAgents b = ofAgents c := by
  rw [ofAgents, ofAgents, ofPairs, ofPairs, List.foldl_map, List.foldl_map]
  have : RightCommutative fun (p : Pool) (a : Agent) => p.add a.model 1 :=
    ⟨fun p a b => add_right_comm p a.model b.model 1⟩
  exact h.foldl_eq empty

end Pool

namespace CoalitionSearch

/-! ### Splits with the same pools -/

/-- Splits are alike if their coalitions have the same pools, each equally often. -/
def IsAlike (x y : List (List Agent)) : Prop := (x.map Pool.ofAgents).Perm (y.map Pool.ofAgents)

theorem IsAlike.length_eq {x y : List (List Agent)} (h : IsAlike x y) : x.length = y.length := by
  have hlength := List.Perm.length_eq h
  rwa [List.length_map, List.length_map] at hlength

/-- Splits are alike just if their pools in order are the same. -/
theorem signature_eq_iff {x y : List (List Agent)} : signature x = signature y ↔ IsAlike x y := by
  constructor
  · intro heq
    refine (sorted_perm _).symm.trans ?_
    rw [← signature, heq]
    exact sorted_perm _
  · intro h
    have hperm := (sorted_perm _).trans (h.trans (sorted_perm _).symm)
    refine hperm.eq_of_pairwise (fun p q _ _ hpq hqp => ?_) (pairwise_sorted _) (pairwise_sorted _)
    exact Std.LawfulEqOrd.eq_of_compare (Std.OrientedCmp.isLE_antisymm hpq hqp)

/-! ### The worth of a split -/

/-- The worth of a split: that of its weakest coalition, if `worth` tells that of pools. -/
def weakest (worth : Pool → Double) (coalitions : List (List Agent)) : Double :=
  (reduce? Double.min (coalitions.map fun c => worth (.ofAgents c))).getD 0

theorem weakest_nil (worth : Pool → Double) : weakest worth [] = 0 := rfl

/-- Each coalition is worth something from nothing to one. -/
def IsShare (worth : Pool → Double) : Prop :=
  ∀ coalition : List Agent, 0 ≤ worth (.ofAgents coalition) ∧ worth (.ofAgents coalition) ≤ 1

section Worth

variable {worth : Pool → Double} {x y : List (List Agent)}

theorem IsShare.isNumber (h : IsShare worth) (x : List (List Agent)) :
    ∀ v ∈ x.map fun c => worth (.ofAgents c), v.IsNumber := by
  intro v hv
  obtain ⟨c, -, rfl⟩ := List.mem_map.1 hv
  exact Double.isNumber_right (h c).1

/-- No split is worth less than nothing. -/
theorem IsShare.weakest_nonneg (h : IsShare worth) (x : List (List Agent)) :
    0 ≤ weakest worth x := by
  cases x with
  | nil => exact (by decide +kernel : (0 : Double) ≤ 0)
  | cons c rest =>
    have hlowest := Double.isLowest_reduce (by simp) (h.isNumber (c :: rest)) 0
    obtain ⟨d, -, hd⟩ := List.mem_map.1 hlowest.mem
    rw [weakest, ← hd]
    exact (h d).1

theorem IsShare.isNumber_weakest (h : IsShare worth) (x : List (List Agent)) :
    (weakest worth x).IsNumber := Double.isNumber_right (h.weakest_nonneg x)

/-- The pools of its coalitions tell what a split is worth. -/
theorem IsShare.rank_weakest_of_pools (h : IsShare worth)
    (hperm : (x.map Pool.ofAgents).Perm (y.map Pool.ofAgents)) :
    (weakest worth x).rank = (weakest worth y).rank := by
  refine Double.rank_reduce_of_perm (h.isNumber x) ?_ 0
  have := hperm.map worth
  rwa [List.map_map, List.map_map] at this

theorem IsShare.rank_weakest_of_unordered (h : IsShare worth)
    (heq : unordered x = unordered y) : (weakest worth x).rank = (weakest worth y).rank :=
  h.rank_weakest_of_pools (perm_map_of_unordered (fun _ _ => Pool.ofAgents_perm) heq)

theorem IsShare.rank_weakest_of_signature (h : IsShare worth) (heq : signature x = signature y) :
    (weakest worth x).rank = (weakest worth y).rank :=
  h.rank_weakest_of_pools (signature_eq_iff.1 heq)

end Worth

/-! ### The structures of a search -/

/-- The structures that a search goes through, in order. -/
def structures (agents : List Agent) : List (List (List Agent)) :=
  (List.range' 1 agents.length).flatMap fun k =>
    (labelings k 0 agents.length).map (blocksOf agents)

variable {agents : List Agent} {x : List (List Agent)}

theorem mem_structures : x ∈ structures agents ↔
    ∃ k, (1 ≤ k ∧ k ≤ agents.length) ∧
      ∃ labels ∈ labelings k 0 agents.length, blocksOf agents labels = x := by
  simp only [structures, List.mem_flatMap, List.mem_map, List.mem_range'_1]
  refine exists_congr fun k => and_congr_left fun _ => ?_
  omega

theorem isSplit_of_mem_structures (h : x ∈ structures agents) : IsSplit agents x := by
  obtain ⟨k, -, labels, hlabels, rfl⟩ := mem_structures.1 h
  obtain ⟨hlength, hgrowth, -⟩ := mem_labelings.1 hlabels
  exact isSplit_blocksOf hlength.symm hgrowth

theorem ne_nil_of_mem_structures (h : x ∈ structures agents) : x ≠ [] := by
  obtain ⟨k, ⟨hk, -⟩, labels, hlabels, rfl⟩ := mem_structures.1 h
  rw [← List.length_pos_iff, length_blocksOf, (mem_labelings.1 hlabels).2.2]
  exact hk

theorem length_le_length_flatten {α : Type} : ∀ {blocks : List (List α)},
    (∀ b ∈ blocks, b ≠ []) → blocks.length ≤ blocks.flatten.length
  | [], _ => Nat.le_refl 0
  | b :: rest, h => by
    obtain ⟨hb, hrest⟩ := List.forall_mem_cons.1 h
    have hle := length_le_length_flatten hrest
    have hpos := List.length_pos_of_ne_nil hb
    rw [List.length_cons, List.flatten_cons, List.length_append]
    omega

/-- Each split of the agents is gone through, in some order of its coalitions and agents. -/
theorem exists_mem_structures {blocks : List (List Agent)} (h : IsSplit agents blocks)
    (hne : blocks ≠ []) : ∃ x ∈ structures agents, unordered x = unordered blocks := by
  obtain ⟨labels, hlabels, heq⟩ := exists_labeling h
  refine ⟨_, mem_structures.2 ⟨blocks.length, ⟨List.length_pos_of_ne_nil hne, ?_⟩,
    labels, hlabels, rfl⟩, heq⟩
  rw [← h.perm.length_eq]
  exact length_le_length_flatten h.ne_nil

/-- Structures of fewer coalitions come first. -/
theorem pairwise_structures (agents : List Agent) :
    (structures agents).Pairwise fun x y => x.length ≤ y.length := by
  have hlength : ∀ k, ∀ x ∈ (labelings k 0 agents.length).map (blocksOf agents),
      x.length = k := by
    intro k x hx
    obtain ⟨labels, hlabels, rfl⟩ := List.mem_map.1 hx
    rw [length_blocksOf, (mem_labelings.1 hlabels).2.2]
  rw [structures, List.flatMap, List.pairwise_flatten, List.forall_mem_map]
  refine ⟨fun k _ => List.pairwise_of_forall_mem_list fun x hx y hy => ?_,
    List.pairwise_map.2 (List.Pairwise.imp (fun {k k'} hlt x hx y hy => ?_)
      (List.pairwise_lt_range' 1 Nat.one_pos))⟩
  · rw [hlength k x hx, hlength k y hy]
  · rw [hlength k x hx, hlength k' y hy]
    exact Nat.le_of_lt hlt

end CoalitionSearch
end Muster
