import Muster.Proofs.Wiring.Termination

/-!
What it changes to stop a search. Of all that a monitor does, only whether it lets a step go on
matters to a search: without its monitor (`unwatched`) the search takes the same step
(`step_unwatched`). So a run either has the outcome of the unwatched run, or was stopped in a state
that the unwatched run passes, too; what is found up to there is not lost later on (`FindsOne`).
That runs are bounded does not matter here: whatever the monitor, a search ends within its bound
(`exists_endsIn`).

Main statements: `proceed_unwatched`, `step_unwatched`, `findsOne_step`, `loop_unwatched`,
`run_unwatched`, `solve_eq_or_interrupted`.
-/

namespace Muster

namespace WiringSearch

variable {μ : Type} {s₀ s s' : WiringSearch μ}

/-- The search with a monitor that does nothing. -/
def unwatched (s : WiringSearch μ) : WiringSearch WiringMonitor := { s with monitor := .silent }

/-- The progress without a monitor. -/
def Progress.unwatched : Progress μ → Progress WiringMonitor
  | .running s => .running s.unwatched
  | .ended reason s => .ended reason s.unwatched

/-- The search that a step leads to. -/
def Progress.search : Progress μ → WiringSearch μ
  | .running s => s
  | .ended _ s => s

/-- At most one solution was found on the way, and the first of all is kept. -/
def FindsOne (s s' : WiringSearch μ) : Prop :=
  (s'.first = s.first ∧ s'.solutions = s.solutions) ∨
    ∃ g, s'.first = s.first.or (some g) ∧ s'.solutions = s.solutions + 1

/-- A graph is kept just if solutions were counted. -/
def IsCounted (s : WiringSearch μ) : Prop := s.first.isSome ↔ 0 < s.solutions

theorem FindsOne.first_eq {g : ConnectionGraph} (h : FindsOne s s') (hg : s.first = some g) :
    s'.first = some g := by
  rcases h with ⟨hfirst, -⟩ | ⟨g', hfirst, -⟩
  · exact hfirst.trans hg
  · rw [hfirst, hg]
    rfl

theorem FindsOne.isCounted (h : FindsOne s s') (hs : s.IsCounted) : s'.IsCounted := by
  rcases h with ⟨hfirst, hsolutions⟩ | ⟨g, hfirst, hsolutions⟩
  · rw [IsCounted, hfirst, hsolutions]
    exact hs
  · rw [IsCounted, hfirst, hsolutions, Option.isSome_or]
    exact iff_of_true (Bool.or_true _) (Nat.succ_pos _)

/-- The answer is a graph as soon as one is kept, why ever the search ended. -/
theorem result_outcome {g : ConnectionGraph} (reason : TerminationReason) (h : s.first = some g) :
    (s.outcome reason).result = .feasible g := by
  cases reason <;> simp [outcome, h, WiringOutcome.feasible, WiringOutcome.aborted]

theorem isAborted_outcome (reason : TerminationReason) (s : WiringSearch μ) :
    (s.outcome reason).reason.isAborted = reason.isAborted := by
  cases reason <;> cases hfirst : s.first <;>
    simp [outcome, hfirst, WiringOutcome.feasible, WiringOutcome.infeasible, WiringOutcome.aborted,
      TerminationReason.isAborted]

variable [WiringObserver μ]

/-- The monitor stops the search before its next step, for a reason. -/
def IsInterrupted (s : WiringSearch μ) (message : String) : Prop :=
  (WiringObserver.command (s.tell (.step s.wiring)).monitor s.wiring s.statistics).1 =
    .terminate message

/-- A step that the monitor has let go on. -/
def proceed (s : WiringSearch μ) : Progress μ :=
  if s.stack.isExhausted then
    if s.stack.depth ≤ 1 then .ended .searchSpaceExhausted s else .running s.goBack
  else if s.tryNext.limit ≤ s.tryNext.solutions then .ended .solutionLimitReached s.tryNext
  else .running s.tryNext

/-- The monitor stops the search, or the search goes on. -/
theorem step_cases (s : WiringSearch μ) :
    (∃ message monitor, s.IsInterrupted message ∧
      s.step = .ended (.aborted message) (s.awaken monitor)) ∨
    ∃ monitor, s.step = (s.awaken monitor).proceed := by
  rw [step_eq]
  rcases hcommand : WiringObserver.command (s.tell (.step s.wiring)).monitor s.wiring s.statistics
    with ⟨_ | message, monitor⟩
  · exact .inr ⟨monitor, rfl⟩
  · exact .inl ⟨message, monitor, congrArg Prod.fst hcommand, rfl⟩

/-! ### Searches without monitors -/

theorem descend_unwatched (s : WiringSearch μ) (c : Choice) :
    s.unwatched.descend c = (s.descend c).unwatched := by
  have henter : s.unwatched.enter c = (s.enter c).unwatched := rfl
  have hreason : (s.enter c).unwatched.wiring.pruneReason (s.enter c).unwatched.problem =
      (s.enter c).wiring.pruneReason (s.enter c).problem := rfl
  rw [descend_eq, descend_eq, henter, hreason]
  by_cases hconnected : (s.enter c).wiring.isConnected
  · rw [if_pos hconnected]
    exact if_pos hconnected
  · rw [if_neg hconnected]
    refine (if_neg hconnected).trans ?_
    cases (s.enter c).wiring.pruneReason (s.enter c).problem with
    | some reason => rfl
    | none => rfl

theorem tryNext_unwatched (s : WiringSearch μ) : s.unwatched.tryNext = s.tryNext.unwatched := by
  have hstack : s.unwatched.stack = s.stack := rfl
  rw [tryNext, tryNext, hstack]
  rcases s.stack.next with ⟨_ | c, stack⟩
  · rfl
  · exact descend_unwatched (({ s with stack } : WiringSearch μ).count .countDecision) c

theorem proceed_unwatched (s : WiringSearch μ) : s.unwatched.proceed = s.proceed.unwatched := by
  rw [proceed, proceed, tryNext_unwatched]
  simp only [apply_ite Progress.unwatched]
  rfl

/-- Unless its monitor stops it, a search takes the step that it takes without its monitor. -/
theorem step_unwatched (s : WiringSearch μ) :
    (∃ message monitor, s.IsInterrupted message ∧
      s.step = .ended (.aborted message) (s.awaken monitor)) ∨
    s.unwatched.step = s.step.unwatched := by
  rcases s.step_cases with h | ⟨monitor, hstep⟩
  · exact .inl h
  · rw [hstep, ← proceed_unwatched]
    exact .inr rfl

theorem begin_unwatched (s : WiringSearch μ) :
    s.unwatched.begin = (s.begin.1, s.begin.2.unwatched) := by
  have hreason : s.unwatched.wiring.pruneReason s.unwatched.problem =
      s.wiring.pruneReason s.problem := rfl
  rw [begin_eq, begin_eq, hreason]
  by_cases hconnected : s.wiring.isConnected
  · rw [if_pos hconnected]
    exact if_pos hconnected
  · rw [if_neg hconnected]
    refine (if_neg hconnected).trans ?_
    cases s.wiring.pruneReason s.problem with
    | some reason => rfl
    | none => rfl

/-! ### What is found is kept -/

theorem findsOne_noteSolution (s : WiringSearch μ) : FindsOne s s.noteSolution :=
  .inr ⟨_, rfl, rfl⟩

theorem findsOne_descend (s : WiringSearch μ) (c : Choice) : FindsOne s (s.descend c) := by
  rw [descend_eq]
  split
  · exact findsOne_noteSolution (s.enter c)
  · split
    · exact .inl ⟨rfl, rfl⟩
    · exact .inl ⟨rfl, rfl⟩

theorem findsOne_tryNext (s : WiringSearch μ) : FindsOne s s.tryNext := by
  rw [tryNext]
  rcases s.stack.next with ⟨_ | c, stack⟩
  · exact .inl ⟨rfl, rfl⟩
  · exact findsOne_descend (({ s with stack } : WiringSearch μ).count .countDecision) c

theorem findsOne_begin (s : WiringSearch μ) : FindsOne s s.begin.2 := by
  rw [begin_eq]
  split
  · exact findsOne_noteSolution s.entered
  · split
    · exact .inl ⟨rfl, rfl⟩
    · exact .inl ⟨rfl, rfl⟩

theorem findsOne_step (s : WiringSearch μ) : FindsOne s s.step.search := by
  rcases s.step_cases with ⟨message, monitor, -, hstep⟩ | ⟨monitor, hstep⟩
  · rw [hstep]
    exact .inl ⟨rfl, rfl⟩
  · rw [hstep, proceed]
    split
    · split
      · exact .inl ⟨rfl, rfl⟩
      · exact .inl ⟨rfl, rfl⟩
    · split
      · exact findsOne_tryNext (s.awaken monitor)
      · exact findsOne_tryNext (s.awaken monitor)

theorem Running.isCounted (h : Running s₀ s) (hs₀ : s₀.IsCounted) : s.IsCounted := by
  induction h with
  | begun => exact (findsOne_begin s₀).isCounted hs₀
  | @step s s' _ hstep ih =>
    have hfinds := findsOne_step s
    rw [hstep] at hfinds
    exact hfinds.isCounted ih

theorem first_loop {g : ConnectionGraph} (fuel : Nat) (hg : s.first = some g) :
    (loop fuel s).2.first = some g := by
  induction fuel generalizing s with
  | zero => exact hg
  | succ fuel ih =>
    have hkept := (findsOne_step s).first_eq hg
    rw [loop]
    cases hstep : s.step with
    | running s' =>
      rw [hstep] at hkept
      exact ih hkept
    | ended reason s' =>
      rw [hstep] at hkept
      exact hkept

/-! ### Whole runs -/

/-- A loop ends as it does without its monitor, or is stopped on the way, and then the loop without
monitor keeps what was found up to there. -/
theorem loop_unwatched (fuel : Nat) (h : Running s₀ s) :
    loop fuel s.unwatched = ((loop fuel s).1, (loop fuel s).2.unwatched) ∨
    ∃ u message, Running s₀ u ∧ u.IsInterrupted message ∧
      (loop fuel s).2.outcome (loop fuel s).1 = .aborted u.first message u.statistics ∧
      ∀ g, u.first = some g → (loop fuel s.unwatched).2.first = some g := by
  induction fuel generalizing s with
  | zero => exact .inl rfl
  | succ fuel ih =>
    rcases s.step_unwatched with ⟨message, monitor, hinterrupted, hstep⟩ | hstep
    · refine .inr ⟨s, message, h, hinterrupted, ?_, fun g hg => first_loop (fuel + 1) hg⟩
      rw [loop, hstep]
      rfl
    · rw [loop, loop, hstep]
      cases hprogress : s.step with
      | running s' => exact ih (h.step hprogress)
      | ended reason s' => exact .inl rfl

/-- A run has the outcome that it has without its monitor, or is stopped on the way, and then the run
without monitor gives the graph that was found up to there, if there is one. -/
theorem run_unwatched (s : WiringSearch μ) : s.run.1 = s.unwatched.run.1 ∨
    ∃ u message, Running s u ∧ u.IsInterrupted message ∧
      s.run.1 = .aborted u.first message u.statistics ∧
      ∀ g, u.first = some g → s.unwatched.run.1.result = .feasible g := by
  have hproblem : s.unwatched.begin.2.problem = s.begin.2.problem := by
    rw [begin_unwatched]
    rfl
  rw [outcome_run, outcome_run, hproblem, begin_unwatched]
  generalize stepBound s.begin.2.problem = fuel
  by_cases hbegin : s.begin.1
  · rw [if_pos hbegin, if_pos hbegin]
    rcases loop_unwatched fuel (.begun hbegin) with
      heq | ⟨u, message, hrunning, hinterrupted, houtcome, hfirst⟩
    · rw [heq]
      exact .inl rfl
    · refine .inr ⟨u, message, hrunning, hinterrupted, houtcome, fun g hg => ?_⟩
      exact result_outcome _ (hfirst g hg)
  · rw [if_neg hbegin, if_neg hbegin]
    exact .inl rfl

theorem IsPatient.isAborted_run {P : μ → Prop} (hP : IsPatient P) (h : P s.monitor) :
    s.run.1.reason.isAborted = false := by
  rw [outcome_run]
  split
  · rw [isAborted_outcome]
    exact isAborted_loop hP _ (hP.begin h)
  · exact isAborted_outcome .searchSpaceExhausted s.begin.2

/-- A monitor that is patient changes nothing. -/
theorem IsPatient.run_unwatched {P : μ → Prop} (hP : IsPatient P) (h : P s.monitor) :
    s.run.1 = s.unwatched.run.1 := by
  rcases s.run_unwatched with heq | ⟨u, message, -, -, houtcome, -⟩
  · exact heq
  · have haborted := hP.isAborted_run h
    rw [houtcome] at haborted
    exact nomatch haborted

end WiringSearch

namespace WiringSolver

open WiringSearch WiringDraft

/-- Whatever solver searches a problem, with whichever brancher and monitor: the outcome is that of
the search with a monitor that never stops it, or the monitor has stopped the search in some state.
Then the outcome says so with the words of the monitor; if no solution had been found by then it
knows nothing, otherwise it has the graph that the other outcome has, and it never denies that there
is one. -/
theorem solve_eq_or_interrupted (s : WiringSolver) (p : WiringProblem) (b : Brancher)
    {μ ν : Type} [WiringObserver μ] [WiringObserver ν] (monitor : μ) {P : ν → Prop}
    (hP : IsPatient P) {watcher : ν} (hwatcher : P watcher) :
    (s.solve p b monitor).outcome = (s.solve p b watcher).outcome ∨
    ∃ u message, Running (s.search p b monitor) u ∧ u.IsInterrupted message ∧
      (s.solve p b monitor).outcome.reason = .aborted message ∧
      (s.solve p b monitor).outcome.statistics = u.statistics ∧
      (s.solve p b monitor).outcome.result ≠ .infeasible ∧
      (u.solutions = 0 → (s.solve p b monitor).outcome.result = .unknown) ∧
      (0 < u.solutions → ∃ g, (s.solve p b monitor).outcome.result = .feasible g ∧
        (s.solve p b watcher).outcome.result = .feasible g) := by
  have hwatched : (s.solve p b watcher).outcome = (s.search p b monitor).unwatched.run.1 :=
    hP.run_unwatched (s := s.search p b watcher) hwatcher
  rcases (s.search p b monitor).run_unwatched with
    heq | ⟨u, message, hrunning, hinterrupted, houtcome, hresult⟩
  · exact .inl (Eq.trans heq hwatched.symm)
  · have hcounted : u.first.isSome ↔ 0 < u.solutions :=
      hrunning.isCounted (iff_of_false nofun nofun)
    have houtcome : (s.solve p b monitor).outcome = .aborted u.first message u.statistics := houtcome
    refine .inr ⟨u, message, hrunning, hinterrupted, ?_⟩
    rw [houtcome, hwatched]
    refine ⟨rfl, rfl, ?_, ?_, ?_⟩
    · cases hfirst : u.first with
      | none => nofun
      | some g => nofun
    · intro hnone
      have hfirst : u.first = none := by
        rw [← Option.not_isSome_iff_eq_none, hcounted, hnone]
        exact lt_irrefl 0
      rw [hfirst]
      rfl
    · intro hsome
      obtain ⟨g, hg⟩ := Option.isSome_iff_exists.1 (hcounted.2 hsome)
      refine ⟨g, ?_, hresult g hg⟩
      rw [hg]
      rfl

/-- A monitor that lets a search take a number of steps. -/
structure StepAllowance where
  left : Nat

instance : WiringObserver StepAllowance where
  name _ := "StepAllowance"
  observe m _ _ := m
  command m _ _ :=
    match m.left with
    | 0 => (.terminate "no steps left", m)
    | left + 1 => (.proceed, ⟨left⟩)

/-- A search for two wirings of the dock and its rovers has found one after two steps, and there is
no other one. -/
theorem solve_eq_or_interrupted_evenRovers : ∃ g,
    ((({} : WiringSolver).withLimit 2).solve evenDraft.build .lexicographic
      (StepAllowance.mk 2)).outcome.result = .feasible g ∧
    ((({} : WiringSolver).withLimit 2).solve evenDraft.build .lexicographic
      (StepAllowance.mk 2)).outcome.reason = .aborted "no steps left" ∧
    ((({} : WiringSolver).withLimit 2).solve evenDraft.build .lexicographic
      WiringMonitor.silent).outcome.result = .feasible g ∧
    ((({} : WiringSolver).withLimit 2).solve evenDraft.build .lexicographic
      WiringMonitor.silent).outcome.reason = .searchSpaceExhausted := by
  have hstopped : ((({} : WiringSolver).withLimit 2).solve evenDraft.build .lexicographic
      (StepAllowance.mk 2)).outcome.reason = .aborted "no steps left" := by decide +kernel
  have hended : ((({} : WiringSolver).withLimit 2).solve evenDraft.build .lexicographic
      WiringMonitor.silent).outcome.reason = .searchSpaceExhausted := by decide +kernel
  have hknown : ((({} : WiringSolver).withLimit 2).solve evenDraft.build .lexicographic
      (StepAllowance.mk 2)).outcome.result ≠ .unknown := by decide +kernel
  rcases solve_eq_or_interrupted (({} : WiringSolver).withLimit 2) evenDraft.build .lexicographic
      (StepAllowance.mk 2) isPatient_silent rfl with
    heq | ⟨u, message, -, -, -, -, -, hnone, hsome⟩
  · rw [heq, hended] at hstopped
    exact nomatch hstopped
  · obtain ⟨g, hg, hg'⟩ := hsome (Nat.pos_of_ne_zero fun hzero => hknown (hnone hzero))
    exact ⟨g, hg, hstopped, hg', hended⟩

end WiringSolver
end Muster
