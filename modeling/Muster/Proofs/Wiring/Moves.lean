import Muster.Proofs.Counter
import Muster.Proofs.Wiring.Interruption

/-!
What a step of a search does to its levels and its counters. A step leaves a level that has nothing
left to try, or tries a choice; then it finds a connected wiring, prunes the wiring that it finds
there, or opens a level with the choices of the brancher (`Moves`). Looking at the wiring without
wires does the same, without a choice (`IsFresh.begin_cases`).

Main statements: `IsAt.moves`, `IsFresh.begin_cases`, `solutions_lt_of_running`, `ended_cases`.
-/

namespace Muster

/-- The counters when a choice has led to a node at a depth. -/
def WiringStatistics.countChoice (n : WiringStatistics) (depth : Nat) : WiringStatistics :=
  n.countDecision.countNode.noteDepth depth

namespace WiringSearch

open SearchLevel

/-- How one step moves a search that stands at level `l` above `ls`, has the counters `n` and has
found `k` wirings. -/
inductive Moves (p : WiringProblem) (n : WiringStatistics) (k : Nat) (l : SearchLevel)
    (ls : List SearchLevel) : WiringStatistics → Nat → SearchLevel → List SearchLevel → Prop
  | stays : Moves p n k l ls n k l ls
  | leaves {m : SearchLevel} {ms : List SearchLevel} (htodo : l.todo = []) (hls : ls = m :: ms) :
    Moves p n k l ls n.countBacktrack k m ms
  | finds {c : Choice} {cs : List Choice} (htodo : l.todo = c :: cs)
    (hconnected : (l.wiring.after p c).isConnected) :
    Moves p n k l ls (n.countChoice (ls.length + 2)).countSolution (k + 1)
      ⟨l.wiring.after p c, none, []⟩ ({ l with todo := cs } :: ls)
  | prunes {c : Choice} {cs : List Choice} (htodo : l.todo = c :: cs) (reason : PruneReason) :
    Moves p n k l ls ((n.countChoice (ls.length + 2)).countPruned reason).countBacktrack k
      { l with todo := cs } ls
  | branches {c : Choice} {cs : List Choice} (htodo : l.todo = c :: cs) (b : Brancher) :
    Moves p n k l ls (n.countChoice (ls.length + 2)) k
      (ofChoices (l.wiring.after p c) (b.branch p (l.wiring.after p c)).1)
      ({ l with todo := cs } :: ls)

/-! ### Outcomes -/

section Outcome

variable {μ : Type} (reason : TerminationReason) (s : WiringSearch μ)

theorem statistics_outcome : (s.outcome reason).statistics = s.statistics := by
  cases reason <;> cases hfirst : s.first <;>
    simp [outcome, hfirst, WiringOutcome.feasible, WiringOutcome.infeasible, WiringOutcome.aborted]

/-- The outcome tells why the search ended; at the limit there has to be a graph. -/
theorem reason_outcome (h : reason = .solutionLimitReached → s.first.isSome) :
    (s.outcome reason).reason = reason := by
  cases reason with
  | searchSpaceExhausted =>
    cases hfirst : s.first <;> simp [outcome, hfirst, WiringOutcome.feasible, WiringOutcome.infeasible]
  | solutionLimitReached =>
    obtain ⟨g, hfirst⟩ := Option.isSome_iff_exists.1 (h rfl)
    simp [outcome, hfirst, WiringOutcome.feasible]
  | aborted message => simp [outcome, WiringOutcome.aborted]

end Outcome

/-! ### Steps -/

section Step

variable {μ : Type} [WiringObserver μ] {p : WiringProblem} {limit : Nat} {s t : WiringSearch μ}
  {l : SearchLevel} {ls : List SearchLevel} {reason : TerminationReason}

theorem statistics_goBack (s : WiringSearch μ) :
    s.goBack.statistics = s.statistics.countBacktrack := rfl

theorem solutions_goBack (s : WiringSearch μ) : s.goBack.solutions = s.solutions := rfl

/-- Trying a choice finds a wiring, prunes one, or branches. -/
theorem IsAt.moves_tryNext (h : IsAt p limit s l ls) (hp : p.IsProper) (htodo : l.todo ≠ []) :
    ∃ l' ls', IsAt p limit s.tryNext l' ls' ∧
      Moves p s.statistics s.solutions l ls s.tryNext.statistics s.tryNext.solutions l' ls' := by
  obtain ⟨c, cs, htodo⟩ := List.exists_cons_of_ne_nil htodo
  have henter := (h.taken htodo).enter (h.next htodo).2
  rw [h.tryNext_eq htodo, descend_eq]
  generalize hs' : (({ s with stack := s.stack.next.2 } : WiringSearch μ).count
    .countDecision).enter c = s' at henter ⊢
  have hsolutions : s'.solutions = s.solutions := by
    rw [← hs']
    rfl
  have hcounters : s'.statistics = s.statistics.countChoice (ls.length + 2) := by
    have hdepth : s.stack.next.2.pushLevel.depth = ls.length + 2 := by
      rw [(h.next htodo).1, ChoiceStack.depth, ChoiceStack.pushLevel, List.length_cons]
      exact congrArg (· + 1) (depth_stackOf ({ l with todo := cs } :: ls))
    rw [← hs', ← hdepth]
    rfl
  rw [henter.wiring_eq, henter.problem_eq, ← hsolutions]
  by_cases hconnected : (l.wiring.after p c).isConnected
  · rw [if_pos hconnected]
    obtain ⟨hkeeps, -⟩ := henter.toKeepsFirst.noteSolution henter.problem_eq
      (henter.wiring_eq ▸ henter.isSound hp) (henter.wiring_eq ▸ hconnected)
    refine ⟨_, _, henter.congr hkeeps rfl rfl rfl rfl rfl, ?_⟩
    show Moves p _ _ l ls s'.statistics.countSolution (s'.solutions + 1) _ _
    rw [hcounters]
    exact .finds htodo hconnected
  · rw [if_neg hconnected]
    cases (l.wiring.after p c).pruneReason p with
    | some reason =>
      have hpruned : IsAt p limit (s'.inspected.notePruned reason) _ _ :=
        henter.congr (henter.toKeepsFirst.congr rfl rfl) rfl rfl rfl rfl rfl
      refine ⟨_, _, hpruned.goBack hp, ?_⟩
      rw [statistics_goBack, solutions_goBack]
      show Moves p _ _ l ls (s'.statistics.countPruned reason).countBacktrack s'.solutions _ _
      rw [hcounters]
      exact .prunes htodo reason
    | none =>
      refine ⟨_, _, henter.inspected.enqueue, ?_⟩
      show Moves p _ _ l ls s'.statistics s'.solutions _ _
      rw [hcounters]
      exact .branches htodo s'.brancher

/-- Every step is one of the moves. -/
theorem IsAt.moves (h : IsAt p limit s l ls) (hp : p.IsProper) :
    ∃ l' ls', IsAt p limit s.step.search l' ls' ∧ Moves p s.statistics s.solutions l ls
      s.step.search.statistics s.step.search.solutions l' ls' := by
  have hawake : ∀ monitor, IsAt p limit (s.awaken monitor) l ls := fun _ =>
    h.congr (h.toKeepsFirst.congr rfl rfl) rfl rfl rfl rfl rfl
  rcases s.step_cases with ⟨message, monitor, -, hstep⟩ | ⟨monitor, hstep⟩
  · rw [hstep]
    exact ⟨l, ls, hawake monitor, .stays⟩
  · have hat := hawake monitor
    rw [hstep, proceed, hat.stack_eq, isExhausted_stackOf, depth_stackOf]
    by_cases htodo : l.todo = []
    · rw [if_pos (List.isEmpty_iff.2 htodo)]
      cases ls with
      | nil => exact ⟨l, [], hat, .stays⟩
      | cons m ms =>
        rw [if_neg (by simp)]
        exact ⟨m, ms, hat.goBack hp, .leaves htodo rfl⟩
    · rw [if_neg (mt List.isEmpty_iff.1 htodo)]
      obtain ⟨l', ls', hat', hmoves⟩ := hat.moves_tryNext hp htodo
      refine ⟨l', ls', ?_⟩
      split
      · exact ⟨hat', hmoves⟩
      · exact ⟨hat', hmoves⟩

/-- A search goes on only below its limit. -/
theorem solutions_lt_of_running (hstep : s.step = .running t) (hs : s.solutions < s.limit) :
    t.solutions < t.limit := by
  rcases s.step_cases with ⟨message, monitor, -, hended⟩ | ⟨monitor, hproceed⟩
  · cases hended.symm.trans hstep
  · rw [hproceed, proceed] at hstep
    split at hstep
    · split at hstep
      · cases hstep
      · cases hstep
        exact hs
    · split at hstep
      · cases hstep
      · cases hstep
        exact Nat.lt_of_not_le ‹_›

/-- A step ends a search because the monitor stops it, with nothing left to try on the first level,
or at the limit. -/
theorem ended_cases (hstep : s.step = .ended reason t) :
    (∃ message, reason = .aborted message) ∨
    (reason = .searchSpaceExhausted ∧ t.stack.depth ≤ 1) ∨
    (reason = .solutionLimitReached ∧ t.limit ≤ t.solutions) := by
  rcases s.step_cases with ⟨message, monitor, -, hended⟩ | ⟨monitor, hproceed⟩
  · cases hended.symm.trans hstep
    exact .inl ⟨message, rfl⟩
  · rw [hproceed, proceed] at hstep
    split at hstep
    · split at hstep
      · cases hstep
        exact .inr (.inl ⟨rfl, ‹_›⟩)
      · cases hstep
    · split at hstep
      · cases hstep
        exact .inr (.inr ⟨rfl, ‹_›⟩)
      · cases hstep

/-- Looking at the wiring without wires finds it, prunes it, or branches. -/
theorem IsFresh.begin_cases (h : IsFresh p s) :
    (s.begin.1 = false ∧ (PartialWiring.ofProblem p).isConnected ∧
      s.begin.2.statistics = s.statistics.countNode.countSolution ∧ s.begin.2.solutions = 1 ∧
      s.begin.2.wiring = .ofProblem p) ∨
    (∃ reason, s.begin.1 = false ∧
      s.begin.2.statistics = s.statistics.countNode.countPruned reason ∧
      s.begin.2.solutions = 0) ∨
    (s.begin.1 = true ∧ s.begin.2.statistics = s.statistics.countNode ∧ s.begin.2.solutions = 0 ∧
      IsAt p s.limit s.begin.2
        (ofChoices (.ofProblem p) (s.brancher.branch p (.ofProblem p)).1) []) := by
  have hroot := h.root.enqueue
  rw [begin_eq, h.wiring_eq, h.problem_eq]
  by_cases hconnected : (PartialWiring.ofProblem p).isConnected
  · rw [if_pos hconnected]
    exact .inl ⟨rfl, hconnected, rfl, congrArg (· + 1) h.solutions_eq, h.wiring_eq⟩
  · rw [if_neg hconnected]
    cases (PartialWiring.ofProblem p).pruneReason p with
    | some reason => exact .inr (.inl ⟨reason, rfl, rfl, h.solutions_eq⟩)
    | none => exact .inr (.inr ⟨rfl, rfl, h.solutions_eq, hroot⟩)

/-- If there is anything to search, the search stands at its first level. -/
theorem IsFresh.isAt_begin (h : IsFresh p s) (hbegin : s.begin.1 = true) :
    s.begin.2.statistics = s.statistics.countNode ∧ s.begin.2.solutions = 0 ∧
      IsAt p s.limit s.begin.2
        (ofChoices (.ofProblem p) (s.brancher.branch p (.ofProblem p)).1) [] := by
  rcases h.begin_cases with ⟨hfalse, -⟩ | ⟨reason, hfalse, -⟩ | ⟨-, hat⟩
  · cases hbegin.symm.trans hfalse
  · cases hbegin.symm.trans hfalse
  · exact hat

end Step

end WiringSearch
end Muster
