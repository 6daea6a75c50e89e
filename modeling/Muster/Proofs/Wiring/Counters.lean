import Muster.Proofs.Wiring.Found

/-!
The counters of a search balance. Every node but the first comes from a choice, every level that was
opened by a choice is left or is still there, and no node is both a solution and pruned. So when
everything was searched as many levels were left as choices tried, and when a search stops at its
limit what is missing are the choices that led to the wiring found last. All that holds until the
number of nodes, the largest of the counters, reaches the limit of tallies.

Main statements: `Leads.length_add`, `Moves.balances`, `Running.balances`, `balances_solve`.
-/

namespace Muster

open PartialWiring

/-! ### Counters -/

namespace WiringStatistics

/-- The counters of a search that stands `depth` choices below its first node fit together, and at
least `inner` nodes are neither solutions nor pruned. -/
structure Balances (n : WiringStatistics) (p : WiringProblem) (depth inner : Nat) : Prop where
  maxDepth_le : n.maxDepth ≤ p.endpointCount + 1
  nodes_eq : n.nodes < tallyLimit → n.nodes = n.decisions + 1
  decisions_eq : n.nodes < tallyLimit → n.decisions = n.backtracks + depth
  leaves_le : n.nodes < tallyLimit →
    n.solutions + n.prunedDisconnected + n.prunedExhausted + inner ≤ n.nodes

variable {n : WiringStatistics} {p : WiringProblem} {depth inner : Nat}

theorem balances_countNode (p : WiringProblem) :
    (({} : WiringStatistics).countNode).Balances p 0 1 :=
  ⟨Nat.zero_le _, fun _ => rfl, fun _ => rfl, fun _ => Nat.le_refl 1⟩

theorem Balances.of_succ (h : n.Balances p depth (inner + 1)) : n.Balances p depth inner :=
  ⟨h.maxDepth_le, h.nodes_eq, h.decisions_eq, fun hlt => Nat.le_of_succ_le (h.leaves_le hlt)⟩

theorem Balances.countChoice (h : n.Balances p depth inner) (hdepth : depth < p.endpointCount) :
    (n.countChoice (depth + 2)).Balances p (depth + 1) (inner + 1) := by
  obtain ⟨hmax, hnodes, hdecisions, hleaves⟩ := h
  refine ⟨?_, fun hlt => ?_, fun hlt => ?_, fun hlt => ?_⟩
  · simp only [WiringStatistics.countChoice, noteDepth, raiseTo]
    split
    · omega
    · exact hmax
  all_goals
    simp only [WiringStatistics.countChoice, countDecision, countNode, noteDepth, tally_eq] at hlt ⊢
    omega

theorem Balances.countBacktrack (h : n.Balances p (depth + 1) inner) :
    n.countBacktrack.Balances p depth inner := by
  obtain ⟨hmax, hnodes, hdecisions, hleaves⟩ := h
  refine ⟨hmax, hnodes, fun hlt => ?_, hleaves⟩
  simp only [WiringStatistics.countBacktrack, tally_eq] at hlt ⊢
  omega

theorem Balances.countSolution (h : n.Balances p depth (inner + 1)) :
    n.countSolution.Balances p depth inner := by
  obtain ⟨hmax, hnodes, hdecisions, hleaves⟩ := h
  refine ⟨hmax, hnodes, hdecisions, fun hlt => ?_⟩
  simp only [WiringStatistics.countSolution, tally_eq] at hlt ⊢
  omega

theorem Balances.countPruned (h : n.Balances p depth (inner + 1)) (reason : PruneReason) :
    (n.countPruned reason).Balances p depth inner := by
  obtain ⟨hmax, hnodes, hdecisions, hleaves⟩ := h
  cases reason
  all_goals
    refine ⟨hmax, hnodes, hdecisions, fun hlt => ?_⟩
    simp only [WiringStatistics.countPruned, tally_eq] at hlt ⊢
    omega

/-- What the counters of a search of a problem say of each other: each node but the first comes from
a choice, no node is both a solution and pruned, and no level is deeper than there are endpoints,
and one. -/
structure IsBalanced (n : WiringStatistics) (p : WiringProblem) : Prop where
  nodes_eq : n.nodes = n.decisions + 1
  leaves_le : n.solutions + n.prunings ≤ n.nodes
  maxDepth_le : n.maxDepth ≤ p.endpointCount + 1

theorem Balances.isBalanced (h : n.Balances p depth inner) (hlt : n.nodes < tallyLimit) :
    n.IsBalanced p := by
  refine ⟨h.nodes_eq hlt, ?_, h.maxDepth_le⟩
  have hleaves := h.leaves_le hlt
  rw [prunings, tallyAdd_eq]
  omega

end WiringStatistics

/-! ### The way to a wiring -/

/-- The choices lead one after the other from the wiring without wires to `w`. -/
inductive Leads (p : WiringProblem) : List Choice → PartialWiring → Prop
  | start : Leads p [] (.ofProblem p)
  | choose {cs : List Choice} {w : PartialWiring} {c : Choice} (h : Leads p cs w)
    (hc : w.Allows p c) : Leads p (cs ++ [c]) (w.after p c)

/-- A choice decides one endpoint, and one more if it wires it. So all ways to a wiring are equally
long. -/
theorem Leads.length_add {p : WiringProblem} {cs : List Choice} {w : PartialWiring}
    (h : Leads p cs w) : cs.length + w.connectionCount = w.decidedCount := by
  induction h with
  | start => rfl
  | @choose cs w c h hc ih =>
    rw [List.length_append, List.length_singleton]
    obtain ⟨e, _ | f⟩ := c
    · show cs.length + 1 + w.connectionCount = w.decidedCount + 1
      omega
    · show cs.length + 1 + (w.connectionCount + 1) = w.decidedCount + 1 + 1
      omega

/-- As many choices as there are levels below it lead to the wiring of a level. -/
theorem IsPath.exists_leads {p : WiringProblem} {l : SearchLevel} {ls : List SearchLevel}
    {t : Trail} (h : IsPath p (l :: ls) t) : ∃ cs, Leads p cs l.wiring ∧ cs.length = ls.length := by
  generalize hlevels : l :: ls = levels at h
  induction h generalizing l ls with
  | root h =>
    cases hlevels
    exact ⟨[], h ▸ .start, rfl⟩
  | child h hc hlm ih =>
    cases hlevels
    obtain ⟨cs, hcs, hlength⟩ := ih rfl
    refine ⟨_, hlm ▸ hcs.choose hc, ?_⟩
    rw [List.length_append, hlength]
    rfl

namespace WiringSearch

/-! ### Steps -/

section Levels

variable {p : WiringProblem} {l l' : SearchLevel} {ls ls' : List SearchLevel}
  {n n' : WiringStatistics} {k k' : Nat}

/-- A step keeps the balance if choices are tried no deeper than there are endpoints. -/
theorem Moves.balances (h : Moves p n k l ls n' k' l' ls')
    (hdepth : l.todo ≠ [] → ls.length < p.endpointCount) (hn : n.Balances p ls.length 0) :
    n'.Balances p ls'.length 0 := by
  have htried : ∀ {c cs}, l.todo = c :: cs →
      (n.countChoice (ls.length + 2)).Balances p (ls.length + 1) 1 :=
    fun htodo => hn.countChoice (hdepth (htodo ▸ List.cons_ne_nil _ _))
  cases h with
  | stays => exact hn
  | leaves htodo hls =>
    subst hls
    exact hn.countBacktrack
  | finds htodo hconnected => exact (htried htodo).countSolution
  | prunes htodo reason => exact ((htried htodo).countPruned reason).countBacktrack
  | branches htodo b => exact (htried htodo).of_succ

end Levels

variable {μ : Type} [WiringObserver μ] {p : WiringProblem} {limit : Nat} {s₀ s t : WiringSearch μ}
  {l : SearchLevel} {ls : List SearchLevel}

omit [WiringObserver μ] in
/-- There is an endpoint for each level that a choice may open. -/
theorem IsAt.length_lt (h : IsAt p limit s l ls) (hp : p.IsProper) (htodo : l.todo ≠ []) :
    ls.length < p.endpointCount := by
  obtain ⟨c, hc⟩ := List.exists_mem_of_ne_nil _ htodo
  have hallows := (h.isReady l List.mem_cons_self c hc).2
  have hopen := openCount_after_lt (h.isSound hp) hp hallows
  have hadd := h.path.openCount_add_le hp
  omega

theorem IsAt.balances (h : IsAt p limit s l ls) (hp : p.IsProper)
    (hn : s.statistics.Balances p ls.length 0) : ∃ l' ls', IsAt p limit s.step.search l' ls' ∧
      s.step.search.statistics.Balances p ls'.length 0 := by
  obtain ⟨l', ls', hat, hmoves⟩ := h.moves hp
  exact ⟨l', ls', hat, hmoves.balances (h.length_lt hp) hn⟩

/-- Between its steps the counters of a search balance. -/
theorem Running.balances (h : Running s₀ s) (hfresh : IsFresh p s₀) (hp : p.IsProper)
    (hn : s₀.statistics = {}) :
    ∃ l ls, IsAt p s₀.limit s l ls ∧ s.statistics.Balances p ls.length 0 := by
  induction h with
  | begun hbegin =>
    obtain ⟨hcounters, -, hat⟩ := hfresh.isAt_begin hbegin
    refine ⟨_, [], hat, ?_⟩
    rw [hcounters, hn]
    exact (WiringStatistics.balances_countNode p).of_succ
  | step _ hstep ih =>
    obtain ⟨l, ls, hat, hbalances⟩ := ih
    have hnext := hat.balances hp hbalances
    rw [hstep] at hnext
    exact hnext

end WiringSearch

namespace WiringSolver

open WiringSearch WiringDraft

/-- Whatever solver searches a problem, with whichever brancher and monitor: as long as the number
of nodes is below the limit of tallies, the counters balance between all steps and at the end.
Between steps, choices that were tried and not taken back are as many as levels below the first.
When everything was searched all are taken back; when the search stopped at its limit it found as
many solutions, and what is not taken back leads to the last of them. -/
theorem balances_solve {p : WiringProblem} (hp : p.IsDrafted) {s : WiringSolver}
    (hs : s.IsReachable) (b : Brancher) {μ : Type} [WiringObserver μ] (monitor : μ) :
    (∀ t, Running (s.search p b monitor) t → t.statistics.nodes < tallyLimit →
      t.statistics.IsBalanced p ∧
      t.statistics.decisions = t.statistics.backtracks + (t.stack.depth - 1)) ∧
    ((s.solve p b monitor).outcome.statistics.nodes < tallyLimit →
      (s.solve p b monitor).outcome.statistics.IsBalanced p ∧
      ((s.solve p b monitor).outcome.reason = .searchSpaceExhausted →
        (s.solve p b monitor).outcome.statistics.backtracks =
          (s.solve p b monitor).outcome.statistics.decisions) ∧
      ((s.solve p b monitor).outcome.reason = .solutionLimitReached →
        (s.solve p b monitor).outcome.statistics.solutions = s.limit ∧
        ∃ w, (s.search p b monitor).found.getLast? = some w ∧ (∃ cs, Leads p cs w) ∧
          ∀ cs, Leads p cs w → (s.solve p b monitor).outcome.statistics.decisions =
            (s.solve p b monitor).outcome.statistics.backtracks + cs.length)) := by
  have hfresh := hs.isFresh p b monitor
  refine ⟨fun t ht hlt => ?_, ?_⟩
  · obtain ⟨l, ls, hat, hbalances⟩ := ht.balances hfresh hp.isProper rfl
    refine ⟨hbalances.isBalanced hlt, ?_⟩
    rw [hat.stack_eq, depth_stackOf]
    exact hbalances.decisions_eq hlt
  rcases run_cases hp hs b monitor with
    ⟨hbegin, -, hn, hreason⟩ | ⟨ws, u, reason, t, hgathers, hstep, hfound, hn, hreason⟩
  · rw [hn, hreason]
    have hbalances : (s.search p b monitor).begin.2.statistics.Balances p 0 0 := by
      rcases hfresh.begin_cases with ⟨-, -, hn, -⟩ | ⟨reason, -, hn, -⟩ | ⟨htrue, -⟩
      · exact hn ▸ (WiringStatistics.balances_countNode p).countSolution
      · exact hn ▸ (WiringStatistics.balances_countNode p).countPruned reason
      · cases hbegin.symm.trans htrue
    intro hlt
    exact ⟨hbalances.isBalanced hlt, fun _ => (hbalances.decisions_eq hlt).symm, nofun⟩
  · obtain ⟨l, ls, hat, hbalances⟩ := hgathers.running.balances hfresh hp.isProper rfl
    obtain ⟨l', ls', hat', hbalances'⟩ := hat.balances hp.isProper hbalances
    rw [hstep, Progress.search] at hat' hbalances'
    rw [hn, hreason]
    intro hlt
    have hdecisions := hbalances'.decisions_eq hlt
    refine ⟨hbalances'.isBalanced hlt, ?_, ?_⟩
    · rintro rfl
      have hdepth : t.stack.depth ≤ 1 := by
        rcases ended_cases hstep with ⟨message, hreason⟩ | ⟨-, hdepth⟩ | ⟨hreason, -⟩
        · cases hreason
        · exact hdepth
        · cases hreason
      rw [hat'.stack_eq, depth_stackOf, List.length_cons] at hdepth
      omega
    · rintro rfl
      obtain ⟨hlast, hlimit⟩ :=
        hgathers.running.solutions_eq hfresh hp.isProper hs.isClear.2.2 hstep
      obtain ⟨m, ms, hhas⟩ := hgathers.hasFound hfresh hp.isProper rfl
      obtain ⟨m', ms', hhas'⟩ := hhas.step hp.isProper
      rw [hstep, Progress.search] at hhas'
      obtain ⟨cs, hcs, hlength⟩ := hat'.path.exists_leads
      refine ⟨?_, l'.wiring, ?_, ⟨cs, hcs⟩, fun ds hds => ?_⟩
      · have hcounted := hhas'.counted
        have hleaves := hbalances'.leaves_le hlt
        have hlimit : t.solutions = s.limit := hlimit
        rw [hlimit, capped] at hcounted
        omega
      · rw [hfound, newly, if_pos hlast, List.getLast?_concat, hat'.wiring_eq]
      · have hcs := hcs.length_add
        have hds := hds.length_add
        omega

/-- The search for two wirings of the dock and the rover takes one of three choices back; the other
two lead to the second wiring. -/
theorem balances_solve_twoWays : ofCalls twoWays = .ok twoWaysDraft ∧
    ((fresh 2).solve twoWaysDraft.build .lexicographic
      WiringMonitor.silent).outcome.statistics.nodes = 4 ∧
    ((fresh 2).solve twoWaysDraft.build .lexicographic
      WiringMonitor.silent).outcome.statistics.IsBalanced twoWaysDraft.build ∧
    ∃ w cs, ((fresh 2).search twoWaysDraft.build .lexicographic
        WiringMonitor.silent).found.getLast? = some w ∧
      Leads twoWaysDraft.build cs w ∧ 3 = 1 + cs.length := by
  have hdraft : ofCalls twoWays = .ok twoWaysDraft := by decide +kernel
  have hnodes : ((fresh 2).solve twoWaysDraft.build .lexicographic
      WiringMonitor.silent).outcome.statistics.nodes = 4 := by decide +kernel
  have hreason : ((fresh 2).solve twoWaysDraft.build .lexicographic
      WiringMonitor.silent).outcome.reason = .solutionLimitReached := by decide +kernel
  have hdecisions : ((fresh 2).solve twoWaysDraft.build .lexicographic
      WiringMonitor.silent).outcome.statistics.decisions = 3 := by decide +kernel
  have hbacktracks : ((fresh 2).solve twoWaysDraft.build .lexicographic
      WiringMonitor.silent).outcome.statistics.backtracks = 1 := by decide +kernel
  obtain ⟨hbalanced, -, hlimit⟩ := (balances_solve (.ofCalls hdraft) (.withLimit .new 2)
    .lexicographic WiringMonitor.silent).2 (hnodes ▸ by decide)
  obtain ⟨-, w, hlast, ⟨cs, hcs⟩, hlength⟩ := hlimit hreason
  have hcount := hlength cs hcs
  rw [fresh] at hdecisions hbacktracks
  rw [hdecisions, hbacktracks] at hcount
  exact ⟨hdraft, hnodes, hbalanced, w, cs, hlast, hcs, hcount⟩

end WiringSolver
end Muster
