import Muster.Proofs.Wiring.Run

/-!
A search ends. Each step lowers the weight of the levels, so the loop takes no more steps than the
weight of the first level, which is below the bound that the loop is given (`IsState.endsIn`).
On the way the stack and the trail have one level for each choice that is made, and a choice decides
an endpoint, so neither gets deeper than there are endpoints, with the level of the start above
them (`IsAt.depth_le`).

Main statements: `EndsIn.loop_eq`, `IsState.endsIn`, `IsAt.depth_le`, `endsIn_search`.
-/

namespace Muster

/-! ### How deep a search is -/

section Path

variable {p : WiringProblem} {l : SearchLevel} {ls : List SearchLevel} {t : Trail}

/-- Choices do not open frames. -/
theorem Trail.depth_apply (t : Trail) (p : WiringProblem) (w : PartialWiring) (c : Choice) :
    (t.apply p w c).1.depth = t.depth := by
  obtain ⟨e, _ | f⟩ := c
  · rfl
  · rfl

/-- The trail has a frame for each level. -/
theorem IsPath.depth_eq (h : IsPath p ls t) : t.depth = ls.length := by
  induction h with
  | root => rfl
  | child h _ _ ih =>
    rw [Trail.depth_apply, List.length_cons, ← ih]
    rfl

/-- Each level above the first has an endpoint decided more than the level below it. -/
theorem IsPath.openCount_add_le (hp : p.IsProper) (h : IsPath p (l :: ls) t) :
    l.wiring.openCount p + ls.length ≤ p.endpointCount := by
  generalize hlevels : l :: ls = levels at h
  induction h generalizing l ls with
  | root h =>
    cases hlevels
    exact openCount_le _ p
  | child h hc hlm ih =>
    cases hlevels
    have hlt := openCount_after_lt (h.isSound hp _ List.mem_cons_self) hp hc
    have hle := ih rfl
    rw [hlm, List.length_cons]
    omega

end Path

namespace WiringSearch

variable {μ : Type} {p : WiringProblem} {limit : Nat} {s s' : WiringSearch μ} {l : SearchLevel}
  {ls : List SearchLevel}

/-- The stack is as deep as the trail, and both have a level for each decided endpoint at most and
the first one. -/
theorem IsAt.depth_le (h : IsAt p limit s l ls) (hp : p.IsProper) :
    s.stack.depth = s.trail.depth ∧ s.stack.depth ≤ p.endpointCount + 1 := by
  have hopen := h.path.openCount_add_le hp
  have hframes := h.path.depth_eq
  rw [h.stack_eq, depth_stackOf, hframes]
  refine ⟨rfl, ?_⟩
  rw [List.length_cons]
  omega

variable [WiringObserver μ]

theorem Passes.depth_le {s₀ : WiringSearch μ} (h : Passes s₀ s) (hfresh : IsFresh p s₀)
    (hp : p.IsProper) :
    s.stack.depth = s.trail.depth ∧ s.stack.depth ≤ p.endpointCount + 1 := by
  rcases h.isAt hfresh hp with ⟨-, htrail, hstack⟩ | ⟨l, ls, hat⟩
  · rw [htrail, hstack]
    exact ⟨rfl, Nat.zero_le _⟩
  · exact hat.depth_le hp

/-! ### How long a search takes -/

/-- The search ends with its `n`-th step from here, for a reason. -/
inductive EndsIn : Nat → WiringSearch μ → TerminationReason → WiringSearch μ → Prop
  | ended {s s' : WiringSearch μ} {reason : TerminationReason}
    (h : s.step = .ended reason s') : EndsIn 1 s reason s'
  | running {n : Nat} {s s' t : WiringSearch μ} {reason : TerminationReason}
    (h : s.step = .running s') (hrest : EndsIn n s' reason t) : EndsIn (n + 1) s reason t

/-- A loop with steps enough ends as the search does. -/
theorem EndsIn.loop_eq {n : Nat} {t : WiringSearch μ} {reason : TerminationReason}
    (h : EndsIn n s reason t) {fuel : Nat} (hfuel : n ≤ fuel) : loop fuel s = (reason, t) := by
  induction h generalizing fuel with
  | ended h =>
    obtain ⟨fuel, rfl⟩ := Nat.exists_eq_add_of_le hfuel
    rw [Nat.add_comm, loop, h]
  | running h _ ih =>
    obtain ⟨fuel, rfl⟩ : ∃ m, fuel = m + 1 := ⟨fuel - 1, by omega⟩
    rw [loop, h]
    exact ih (Nat.le_of_succ_le_succ hfuel)

/-- The weight of the levels bounds the steps that are left. -/
theorem IsState.endsIn (h : IsState p limit s l ls) (hp : p.IsProper) :
    ∃ n ≤ weight p (l :: ls), ∃ reason t, EndsIn n s reason t := by
  -- the induction is on the weight, which each step lowers
  induction hweight : weight p (l :: ls) using Nat.strong_induction_on generalizing s l ls with
  | _ w ih =>
    subst hweight
    rcases h.step hp with ⟨s', l', ls', hstep, hstate, hlt⟩ | ⟨reason, s', hstep, -⟩
    · obtain ⟨n, hn, reason, t, hends⟩ := ih _ hlt hstate rfl
      exact ⟨n + 1, Nat.succ_le_of_lt (Nat.lt_of_le_of_lt hn hlt), reason, t, .running hstep hends⟩
    · refine ⟨1, ?_, reason, s', .ended hstep⟩
      simp only [weight, SearchLevel.weight, List.map_cons, List.sum_cons]
      omega

/-- The outcome of a run is that of the loop, if there is anything to search. -/
theorem outcome_run (s : WiringSearch μ) : s.run.1 =
    if s.begin.1 then
      (loop (stepBound s.begin.2.problem) s.begin.2).2.outcome
        (loop (stepBound s.begin.2.problem) s.begin.2).1
    else s.begin.2.outcome .searchSpaceExhausted := by
  rw [run_eq]
  generalize stepBound s.begin.2.problem = fuel
  split
  · rfl
  · rfl

/-- A monitor that is patient never is the reason. -/
theorem EndsIn.isAborted_eq {P : μ → Prop} (hP : IsPatient P) {n : Nat} {t : WiringSearch μ}
    {reason : TerminationReason} (h : EndsIn n s reason t) (hs : P s.monitor) :
    reason.isAborted = false := by
  have haborted := isAborted_loop hP n hs
  rwa [h.loop_eq le_rfl] at haborted

theorem isPatient_silent : IsPatient (· = WiringMonitor.silent) where
  observe m event n h := by
    subst h
    rfl
  command m w n h := by
    subst h
    exact ⟨.silent, rfl, rfl⟩

end WiringSearch

namespace WiringSolver

open WiringSearch WiringDraft

/-- If the wiring without wires leaves anything to search then the search ends by itself, and the
outcome is that of the state it ends in. -/
theorem exists_endsIn {p : WiringProblem} (hp : p.IsDrafted) {s : WiringSolver} (hs : s.IsReachable)
    (b : Brancher) {μ : Type} [WiringObserver μ] (monitor : μ)
    (hbegin : (s.search p b monitor).begin.1 = true) :
    ∃ n ≤ stepBound p, ∃ reason t, EndsIn n (s.search p b monitor).begin.2 reason t ∧
      (s.solve p b monitor).outcome = t.outcome reason := by
  rcases (hs.isFresh p b monitor).begin hp.isProper with ⟨hfalse, -⟩ | ⟨-, hproblem, l, htodo, hstate⟩
  · rw [hbegin] at hfalse
    exact nomatch hfalse
  · obtain ⟨n, hn, reason, t, hends⟩ := hstate.endsIn hp.isProper
    have hbound : n ≤ stepBound p := hn.trans (weight_start_lt p htodo).le
    refine ⟨n, hbound, reason, t, hends, ?_⟩
    show (s.search p b monitor).run.1 = _
    rw [outcome_run, if_pos hbegin, hproblem, hends.loop_eq hbound]

/-- Whatever problem a solver searches, with whichever limit and brancher, and with a monitor that
never stops the search: after some number of steps the search ends by itself, with the outcome of
the run, and wherever it is, the stack has as many levels as the trail has frames, and no more than
there are endpoints, and one. -/
theorem endsIn_search {p : WiringProblem} (hp : p.IsDrafted) {s : WiringSolver} (hs : s.IsReachable)
    (b : Brancher) {μ : Type} [WiringObserver μ] {P : μ → Prop} (hP : IsPatient P) {monitor : μ}
    (hmonitor : P monitor) :
    ((s.search p b monitor).begin.1 = true → ∃ n ≤ stepBound p, ∃ reason t,
      EndsIn n (s.search p b monitor).begin.2 reason t ∧ reason.isAborted = false ∧
      (s.solve p b monitor).outcome = t.outcome reason) ∧
    ∀ t, Passes (s.search p b monitor) t →
      t.stack.depth = t.trail.depth ∧ t.stack.depth ≤ p.endpointCount + 1 := by
  constructor
  · intro hbegin
    obtain ⟨n, hn, reason, t, hends, houtcome⟩ := exists_endsIn hp hs b monitor hbegin
    exact ⟨n, hn, reason, t, hends, hends.isAborted_eq hP (hP.begin hmonitor), houtcome⟩
  · intro t ht
    exact ht.depth_le (hs.isFresh p b monitor) hp.isProper

/-- The search of the dock and its rovers ends, and its first step leads to the second level. -/
theorem endsIn_search_evenRovers : ofCalls evenRovers = .ok evenDraft ∧
    (∃ n ≤ stepBound evenDraft.build, ∃ reason t,
      EndsIn n evenSearch reason t ∧ reason.isAborted = false) ∧
    ∃ t, evenSearch.step = .running t ∧ t.stack.depth = t.trail.depth ∧ t.stack.depth = 2 ∧
      t.stack.depth ≤ evenDraft.build.endpointCount + 1 := by
  have hdraft : ofCalls evenRovers = .ok evenDraft := by decide +kernel
  have hbegin : (({} : WiringSolver).search evenDraft.build .lexicographic
      WiringMonitor.silent).begin.1 = true := by decide +kernel
  have htwo : (match evenSearch.step with
    | .running t => t.stack.depth
    | .ended _ _ => 0) = 2 := by decide +kernel
  obtain ⟨hends, hdepth⟩ := endsIn_search (.ofCalls hdraft) .new .lexicographic isPatient_silent rfl
  obtain ⟨n, hn, reason, t, hends, hreason, -⟩ := hends hbegin
  refine ⟨hdraft, ⟨n, hn, reason, t, hends, hreason⟩, ?_⟩
  cases hstep : evenSearch.step with
  | ended reason t =>
    rw [hstep] at htwo
    exact nomatch htwo
  | running t =>
    rw [hstep] at htwo
    obtain ⟨heq, hle⟩ := hdepth t (.running (.step (.begun hbegin) hstep))
    exact ⟨t, rfl, heq, htwo, hle⟩

end WiringSolver
end Muster
