import Muster.Proofs.Coalition.Splits

/-!
The course of a search for coalitions. Asking for values changes what a search knows and counts, and
nothing else. A run takes up one structure after the other until it has ended; so what holds of a
search that has gone through some structures, and of that search with one more of them, holds after
all structures.

Main statements: `learns_appraise`, `run_eq`, `run_induction`.
-/

namespace Muster
namespace CoalitionSearch

variable {ω μ : Type}

theorem keepBest_eq (s : CoalitionSearch ω μ) (x : List (List Agent)) (v : Double) :
    s.keepBest x v =
      { s with best := if s.best.all fun b => b.2.lt v then some (x, v) else s.best } := by
  rw [keepBest]
  split <;> rfl

theorem agents_keepBest (s : CoalitionSearch ω μ) (x : List (List Agent)) (v : Double) :
    (s.keepBest x v).agents = s.agents := by
  rw [keepBest_eq]

theorem agents_checkThreshold [SearchMonitor μ] (s : CoalitionSearch ω μ) (v : Double) :
    (s.checkThreshold v).agents = s.agents := by
  rw [checkThreshold]
  split <;> rfl

/-! ### Asking for values -/

/-- The second search differs from the first in what it knows and has counted. -/
def Learns (s t : CoalitionSearch ω μ) : Prop :=
  ∃ oracle values statistics, t = { s with oracle, values, statistics }

theorem Learns.refl (s : CoalitionSearch ω μ) : Learns s s :=
  ⟨s.oracle, s.values, s.statistics, rfl⟩

theorem Learns.trans {s t u : CoalitionSearch ω μ} (h : Learns s t) (h' : Learns t u) :
    Learns s u := by
  obtain ⟨_, _, _, rfl⟩ := h
  obtain ⟨oracle, values, statistics, rfl⟩ := h'
  exact ⟨oracle, values, statistics, rfl⟩

theorem Learns.agents_eq {s t : CoalitionSearch ω μ} (h : Learns s t) : t.agents = s.agents := by
  obtain ⟨_, _, _, rfl⟩ := h
  rfl

section Oracle

variable [CoalitionOracle ω]

theorem learns_valueOf (s : CoalitionSearch ω μ) (coalition : List Agent) :
    Learns s (s.valueOf coalition).2 := by
  rw [valueOf]
  split
  · exact ⟨s.oracle, s.values, _, rfl⟩
  · exact ⟨_, _, _, rfl⟩

theorem learns_valuesOf : ∀ (coalitions : List (List Agent)) (s : CoalitionSearch ω μ),
    Learns s (s.valuesOf coalitions).2
  | [], s => .refl s
  | c :: rest, s => (learns_valueOf s c).trans (learns_valuesOf rest _)

/-- The value that a structure gets, and the search that has asked for it. -/
def appraise (s : CoalitionSearch ω μ) (x : List (List Agent)) : Double × CoalitionSearch ω μ :=
  let asked := s.valuesOf x
  let answer := CoalitionOracle.structureValue asked.2.oracle asked.1
  (answer.1, { asked.2 with oracle := answer.2 })

theorem learns_appraise (s : CoalitionSearch ω μ) (x : List (List Agent)) :
    Learns s (s.appraise x).2 :=
  (learns_valuesOf x s).trans ⟨_, _, _, rfl⟩

end Oracle

/-! ### One structure after the other -/

section Steps

variable [CoalitionOracle ω] [SearchMonitor μ]

/-- Takes up a structure, unless the search has to end. -/
def takeUp (s : CoalitionSearch ω μ) (x : List (List Agent)) : CoalitionSearch ω μ :=
  let s := s.tell .step
  match SearchMonitor.command s.monitor with
  | .terminate reason => s.endWith (.aborted reason)
  | .proceed =>
    if s.config.maxStructures.any (· ≤ s.evaluated) then
      s.endWith (.aborted "structure limit reached")
    else s.consider x

/-- Takes up a structure, unless the search has ended. -/
def pass (s : CoalitionSearch ω μ) (x : List (List Agent)) : CoalitionSearch ω μ :=
  if s.isEnded then s else s.takeUp x

theorem evaluate_eq (s : CoalitionSearch ω μ) (x : List (List Agent)) :
    s.evaluate x = (({ s with evaluated := s.evaluated + 1 }.appraise x).2.keepBest x
      ({ s with evaluated := s.evaluated + 1 }.appraise x).1).checkThreshold
        ({ s with evaluated := s.evaluated + 1 }.appraise x).1 := rfl

theorem agents_evaluate (s : CoalitionSearch ω μ) (x : List (List Agent)) :
    (s.evaluate x).agents = s.agents := by
  rw [evaluate_eq, agents_checkThreshold, agents_keepBest]
  exact (learns_appraise _ x).agents_eq

theorem agents_takeUp (s : CoalitionSearch ω μ) (x : List (List Agent)) :
    (s.takeUp x).agents = s.agents := by
  rw [takeUp]
  split
  · rfl
  · split
    · rfl
    · rw [consider]
      split
      · rfl
      · exact agents_evaluate _ x

theorem agents_pass (s : CoalitionSearch ω μ) (x : List (List Agent)) :
    (s.pass x).agents = s.agents := by
  rw [pass]
  split
  · rfl
  · exact s.agents_takeUp x

theorem agents_foldl_pass : ∀ (xs : List (List (List Agent))) (s : CoalitionSearch ω μ),
    (xs.foldl pass s).agents = s.agents
  | [], _ => rfl
  | x :: xs, s => (agents_foldl_pass xs (s.pass x)).trans (s.agents_pass x)

/-- Labels are taken up as the structures that they describe. -/
theorem foldl_visit : ∀ (labels : List (List Nat)) (s : CoalitionSearch ω μ),
    labels.foldl (fun s l => if s.isEnded then s else s.visit l) s =
      (labels.map (blocksOf s.agents)).foldl pass s
  | [], _ => rfl
  | l :: rest, s => by
    have hrest := foldl_visit rest (s.pass (blocksOf s.agents l))
    rw [agents_pass] at hrest
    exact hrest

theorem foldl_visitAll : ∀ {ks : List Nat} (s : CoalitionSearch ω μ), (∀ k ∈ ks, 0 < k) →
    ks.foldl visitAll s =
      (ks.flatMap fun k => (labelings k 0 s.agents.length).map (blocksOf s.agents)).foldl pass s
  | [], _, _ => rfl
  | k :: ks, s, hks => by
    obtain ⟨hk, hks⟩ := List.forall_mem_cons.1 hks
    have hvisit : s.visitAll k =
        ((labelings k 0 s.agents.length).map (blocksOf s.agents)).foldl pass s := by
      rw [visitAll, PartitionCursor.foldWith_start hk, foldl_visit]
    rw [List.foldl_cons, List.flatMap_cons, List.foldl_append, foldl_visitAll _ hks, hvisit,
      agents_foldl_pass]

theorem run_eq (s : CoalitionSearch ω μ) :
    s.run = ((structures s.agents).foldl pass (s.tell .enter)).tell .exit := by
  have hpos : ∀ k ∈ List.range' 1 s.agents.length, 0 < k := by
    intro k hk
    exact (List.mem_range'_1.1 hk).1
  rw [run, foldl_visitAll _ hpos]
  rfl

/-- What a search keeps with each structure that it goes through, it has kept after all. -/
theorem run_induction {P : List (List (List Agent)) → CoalitionSearch ω μ → Prop}
    {s : CoalitionSearch ω μ} (h : P [] s) (htell : ∀ seen s event, P seen s → P seen (s.tell event))
    (hpass : ∀ seen s x, P seen s → P (seen ++ [x]) (s.pass x)) :
    P (structures s.agents) s.run := by
  have hfold : ∀ xs, P xs (xs.foldl pass (s.tell .enter)) := by
    intro xs
    induction xs using List.reverseRecOn with
    | nil => exact htell _ _ _ h
    | append_singleton xs x ih =>
      rw [List.foldl_append]
      exact hpass _ _ x ih
  rw [run_eq]
  exact htell _ _ _ (hfold _)

end Steps

end CoalitionSearch

namespace CoalitionSolver

variable {ω μ : Type}

/-- The search that a solver begins, with nothing known and nothing tried. -/
def begin (solver : CoalitionSolver) (agents : List Agent) (oracle : ω) (monitor : μ) :
    CoalitionSearch ω μ :=
  { agents, config := solver.config, oracle, monitor }

theorem outcome_solveWith [CoalitionOracle ω] [SearchMonitor μ] (solver : CoalitionSolver)
    (agents : List Agent) (oracle : ω) (monitor : μ) :
    (solver.solveWith agents oracle monitor).outcome =
      (solver.begin agents oracle monitor).run.outcome := rfl

end CoalitionSolver
end Muster
