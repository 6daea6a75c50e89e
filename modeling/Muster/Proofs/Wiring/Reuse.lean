import Muster.Proofs.Wiring.Found

/-!
A solver that was used answers like a new one. Between searches its trail and its stack are empty,
however far the last search came; what stays are the marks of looking for prune reasons. No reason
depends on the marks that are found (`propagate_eq`), so a search that begins with other marks takes
the same steps, and differs in its marks alone.

Main statements: `step_withMarks`, `loop_withMarks`, `run_withMarks`, `IsReachable.solve_eq`,
`outcomes_eq`.
-/

namespace Muster

namespace WiringSearch

variable {μ : Type}

/-- The search with other marks. -/
def withMarks (s : WiringSearch μ) (marks : Array Bool) : WiringSearch μ := { s with marks }

/-- The progress with other marks. -/
def Progress.withMarks (marks : Array Bool) : Progress μ → Progress μ
  | .running s => .running (s.withMarks marks)
  | .ended reason s => .ended reason (s.withMarks marks)

variable [WiringObserver μ] (s : WiringSearch μ) (marks : Array Bool)

theorem descend_withMarks (c : Choice) :
    ∃ left, (s.withMarks marks).descend c = (s.descend c).withMarks left := by
  have henter : (s.withMarks marks).enter c = (s.enter c).withMarks marks := rfl
  have hconnected : ((s.enter c).withMarks marks).wiring.isConnected =
      (s.enter c).wiring.isConnected := rfl
  have hreason : ((s.enter c).withMarks marks).wiring.pruneReason
      ((s.enter c).withMarks marks).problem =
        (s.enter c).wiring.pruneReason (s.enter c).problem := rfl
  rw [descend_eq, descend_eq, henter, hconnected, hreason]
  by_cases h : (s.enter c).wiring.isConnected
  · rw [if_pos h, if_pos h]
    exact ⟨marks, rfl⟩
  · rw [if_neg h, if_neg h]
    cases (s.enter c).wiring.pruneReason (s.enter c).problem with
    | some reason => exact ⟨_, rfl⟩
    | none => exact ⟨_, rfl⟩

theorem tryNext_withMarks : ∃ left, (s.withMarks marks).tryNext = s.tryNext.withMarks left := by
  have hstack : (s.withMarks marks).stack = s.stack := rfl
  rw [tryNext, tryNext, hstack]
  rcases s.stack.next with ⟨_ | c, stack⟩
  · exact ⟨marks, rfl⟩
  · exact descend_withMarks (({ s with stack } : WiringSearch μ).count .countDecision) marks c

theorem proceed_withMarks :
    ∃ left, (s.withMarks marks).proceed = s.proceed.withMarks left := by
  obtain ⟨left, htry⟩ := s.tryNext_withMarks marks
  have hstack : (s.withMarks marks).stack = s.stack := rfl
  rw [proceed, proceed, htry, hstack]
  by_cases hexhausted : s.stack.isExhausted
  · rw [if_pos hexhausted, if_pos hexhausted]
    refine ⟨marks, ?_⟩
    split
    · rfl
    · rfl
  · rw [if_neg hexhausted, if_neg hexhausted]
    refine ⟨left, ?_⟩
    have hlimit : (s.tryNext.withMarks left).limit ≤ (s.tryNext.withMarks left).solutions ↔
        s.tryNext.limit ≤ s.tryNext.solutions := Iff.rfl
    simp only [hlimit]
    split
    · rfl
    · rfl

/-- The marks that a search finds do not change its steps. -/
theorem step_withMarks : ∃ left, (s.withMarks marks).step = s.step.withMarks left := by
  have hcommand : WiringObserver.command
      ((s.withMarks marks).tell (.step (s.withMarks marks).wiring)).monitor
      (s.withMarks marks).wiring (s.withMarks marks).statistics =
    WiringObserver.command (s.tell (.step s.wiring)).monitor s.wiring s.statistics := rfl
  rw [step_eq, step_eq, hcommand]
  rcases WiringObserver.command (s.tell (.step s.wiring)).monitor s.wiring s.statistics with
    ⟨_ | message, monitor⟩
  · exact proceed_withMarks (s.awaken monitor) marks
  · exact ⟨marks, rfl⟩

theorem loop_withMarks (fuel : Nat) : ∃ left,
    loop fuel (s.withMarks marks) = ((loop fuel s).1, (loop fuel s).2.withMarks left) := by
  induction fuel generalizing s marks with
  | zero => exact ⟨marks, rfl⟩
  | succ fuel ih =>
    obtain ⟨left, hstep⟩ := s.step_withMarks marks
    rw [loop, loop, hstep]
    cases s.step with
    | running t => exact ih t left
    | ended reason t => exact ⟨left, rfl⟩

theorem begin_withMarks : ∃ left,
    (s.withMarks marks).begin = (s.begin.1, s.begin.2.withMarks left) := by
  have hconnected : (s.withMarks marks).wiring.isConnected = s.wiring.isConnected := rfl
  have hreason : (s.withMarks marks).wiring.pruneReason (s.withMarks marks).problem =
      s.wiring.pruneReason s.problem := rfl
  rw [begin_eq, begin_eq, hconnected, hreason]
  by_cases h : s.wiring.isConnected
  · rw [if_pos h, if_pos h]
    exact ⟨marks, rfl⟩
  · rw [if_neg h, if_neg h]
    cases s.wiring.pruneReason s.problem with
    | some reason => exact ⟨_, rfl⟩
    | none => exact ⟨_, rfl⟩

theorem tell_withMarks (event : WiringEvent) :
    (s.withMarks marks).tell event = (s.tell event).withMarks marks := rfl

omit [WiringObserver μ] in
theorem outcome_withMarks (reason : TerminationReason) :
    (s.withMarks marks).outcome reason = s.outcome reason := rfl

/-- A search that begins with other marks ends alike. -/
theorem run_withMarks : ∃ left,
    (s.withMarks marks).run = (s.run.1, s.run.2.withMarks left) := by
  obtain ⟨begun, hbegin⟩ := s.begin_withMarks marks
  have hproblem : (s.begin.2.withMarks begun).problem = s.begin.2.problem := rfl
  rw [run_eq, run_eq, hbegin, hproblem]
  cases s.begin.1 with
  | false => exact ⟨begun, rfl⟩
  | true =>
    obtain ⟨left, hloop⟩ := loop_withMarks s.begin.2 begun (stepBound s.begin.2.problem)
    simp only [if_true, hloop, tell_withMarks, outcome_withMarks]
    exact ⟨left, rfl⟩

end WiringSearch

namespace WiringSolver

open WiringSearch WiringDraft

/-- A problem that is to be searched, and what the search is given. -/
structure Task where
  Watcher : Type
  [observer : WiringObserver Watcher]
  problem : WiringProblem
  brancher : Brancher
  monitor : Watcher

/-- What a solver makes of a task. -/
def perform (s : WiringSolver) (task : Task) : Run task.Watcher :=
  @solve task.Watcher task.observer s task.problem task.brancher task.monitor

/-- The outcomes of tasks that a solver performs one after the other. -/
def outcomes : WiringSolver → List Task → List WiringOutcome
  | _, [] => []
  | s, task :: tasks => (s.perform task).outcome :: (s.perform task).solver.outcomes tasks

/-- Whatever a solver was used for, it searches a problem like a new one, and leaves the brancher and
the monitor as that does. -/
theorem IsReachable.solve_eq {s : WiringSolver} (hs : s.IsReachable) (p : WiringProblem)
    (b : Brancher) {μ : Type} [WiringObserver μ] (monitor : μ) :
    (s.solve p b monitor).outcome = ((fresh s.limit).solve p b monitor).outcome ∧
    (s.solve p b monitor).brancher = ((fresh s.limit).solve p b monitor).brancher ∧
    (s.solve p b monitor).monitor = ((fresh s.limit).solve p b monitor).monitor := by
  obtain ⟨htrail, hstack, hlimit⟩ := hs.isClear
  have hfresh : (fresh s.limit).limit = s.limit := if_neg hlimit.ne'
  have hsearch : s.search p b monitor =
      ((fresh s.limit).search p b monitor).withMarks s.marks := by
    rw [search, search, htrail, hstack, hfresh]
    rfl
  obtain ⟨left, hrun⟩ := ((fresh s.limit).search p b monitor).run_withMarks s.marks
  rw [← hsearch] at hrun
  refine ⟨congrArg Prod.fst hrun, ?_, ?_⟩
  · exact congrArg (fun ended => ended.2.brancher) hrun
  · exact congrArg (fun ended => ended.2.monitor) hrun

/-- Whatever tasks a solver performs one after the other, with whichever branchers and monitors, so
that searches may end or be stopped anywhere: each outcome is that of a new solver with the same
limit. -/
theorem outcomes_eq {s : WiringSolver} (hs : s.IsReachable) (tasks : List Task) :
    s.outcomes tasks = tasks.map fun task => ((fresh s.limit).perform task).outcome := by
  induction tasks generalizing s with
  | nil => rfl
  | cons task tasks ih =>
    have hnext : (s.perform task).solver.IsReachable :=
      @IsReachable.solve task.Watcher task.observer s hs task.problem task.brancher task.monitor
    rw [outcomes, List.map_cons, ih hnext]
    exact congrArg (· :: _)
      (@IsReachable.solve_eq s hs task.problem task.brancher task.Watcher task.observer
        task.monitor).1

/-- A search for two wirings of the dock and the rovers that is stopped after two steps, and then one
for the dock and the rover. -/
def stoppedThenTwoWays : List Task :=
  [⟨StepAllowance, evenDraft.build, .lexicographic, ⟨2⟩⟩,
    ⟨WiringMonitor, twoWaysDraft.build, .lexicographic, .silent⟩]

/-- That a search was stopped on its way does not change what the next one finds. -/
theorem outcomes_eq_stoppedThenTwoWays : (fresh 2).IsReachable ∧
    ((fresh 2).outcomes stoppedThenTwoWays).map WiringOutcome.reason =
      [.aborted "no steps left", .solutionLimitReached] ∧
    (fresh 2).outcomes stoppedThenTwoWays = stoppedThenTwoWays.map fun task =>
      ((fresh (fresh 2).limit).perform task).outcome := by
  have hreachable : (fresh 2).IsReachable := .withLimit .new 2
  exact ⟨hreachable, by decide +kernel, outcomes_eq hreachable stoppedThenTwoWays⟩

end WiringSolver
end Muster
