import Muster.Coalition.Agent
import Muster.Proofs.Coalition.Splits
import Muster.Proofs.Pool.Atoms

/-!
The pools of agents. Agents are counted as the atoms of their models, as far as a pool can record
them; so the pools of coalitions add up to the pool of all their agents, and the agents of a pool
have that pool again, without the entries that count zero.

Main statements: `toNat_count_ofAgents`, `sumAll_ofAgents`, `ofAgents_agents`.
-/

namespace Muster

namespace Pool

/-! ### Counting agents -/

theorem ofAgents_eq (agents : List Agent) : ofAgents agents = ofAtoms (agents.map (·.model)) := by
  rw [ofAgents, ofAtoms, List.map_map]
  rfl

/-- A pool of agents counts them, as far as it can record. -/
theorem toNat_count_ofAgents (agents : List Agent) (m : Model) :
    ((ofAgents agents).count m).toNat =
      Min.min (agents.countP fun a => a.model == m) countLimit := by
  rw [ofAgents_eq, toNat_count_ofAtoms, List.count, List.countP_map]
  rfl

/-- Only models of agents are recorded. -/
theorem isNormal_ofAgents (agents : List Agent) : (ofAgents agents).IsNormal :=
  ofAgents_eq agents ▸ isNormal_ofAtoms _

/-! ### Sums -/

theorem sum_ofAgents (a b : List Agent) : (ofAgents a).sum (ofAgents b) = ofAgents (a ++ b) := by
  refine ext_count (isNormal_zipWith _ _ _) (isNormal_ofAgents _) fun m => UInt32.toNat_inj.1 ?_
  rw [toNat_count_sum, toNat_count_ofAgents, toNat_count_ofAgents, toNat_count_ofAgents,
    List.countP_append]
  exact min_add_min _ _

/-- The pools of coalitions add up to the pool of all their agents. -/
theorem sumAll_ofAgents (blocks : List (List Agent)) :
    sumAll (blocks.map ofAgents) = ofAgents blocks.flatten := by
  induction blocks using List.reverseRecOn with
  | nil => rfl
  | append_singleton blocks b ih =>
    rw [List.map_append, List.map_singleton, sumAll_concat, ih, List.flatten_append,
      List.flatten_singleton, sum_ofAgents]

/-! ### The agents of a pool -/

/-- The agents of a pool are its atoms with numbers. -/
theorem map_model_agents (p : Pool) : p.agents.map (·.model) = AtomList.expand p.entries := by
  rw [agents, AtomList.expand, List.map_flatMap]
  refine List.flatMap_congr fun e _ => ?_
  rw [List.map_map]
  exact (List.map_const ..).trans (by rw [List.length_range])

/-- A pool has as many agents of a model as it counts. -/
theorem countP_agents (p : Pool) (m : Model) :
    p.agents.countP (fun a => a.model == m) = (p.count m).toNat := by
  rw [← count_expand_entries, ← map_model_agents, List.count, List.countP_map]
  rfl

/-- The agents of a pool have that pool. -/
theorem ofAgents_agents (p : Pool) : ofAgents p.agents = p.normalized := by
  rw [ofAgents_eq, map_model_agents, ofAtoms_expand]

theorem agents_ne_nil {p : Pool} (h : p.isNull = false) : p.agents ≠ [] := by
  intro hnil
  refine Bool.false_ne_true (h.symm.trans (isNull_iff.2 fun m => UInt32.toNat_inj.1 ?_))
  rw [← countP_agents, hnil]
  rfl

end Pool
end Muster
